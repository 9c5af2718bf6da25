import Mathlib.Data.List.Basic
import Mathlib.Tactic.Common

/-!
# Messages over a byte stream

A transport delivers a stream in reads, cut where it likes.  The receiver keeps
a buffer; after each read it appends what came and calls a decoder until the
decoder has nothing more to give (`receive`).

`wholeBuffer` is a decoder without framing: it tries to parse the whole buffer,
waits when that fails and empties the buffer when it succeeds.  What such a
receiver delivers depends on the cuts:

* `head?_receive`: the first item is what the first prefix of the stream that
  ends at a cut and can be parsed is parsed to.
* `receive_eq_kept`: if parsing a sequence of encodings gives the last one, and
  parsing a broken one fails (`LastWins`), then the messages delivered are those
  that end at a cut, and the others are lost.
-/

namespace Framing

variable {α β : Type*}

/-- What is decoded, if anything, and the buffer afterwards. -/
abbrev Decoder (β α : Type*) := List β → Option α × List β

/-- Call the decoder until it has nothing to give. -/
def drain (decode : Decoder β α) : Nat → List β → List α × List β
  | 0, buffer => ([], buffer)
  | fuel + 1, buffer =>
      match decode buffer with
      | (none, after) => ([], after)
      | (some item, after) => (item :: (drain decode fuel after).1, (drain decode fuel after).2)

/-- The items delivered while the reads arrive.  An item takes at least one
element of the buffer. -/
def receive (decode : Decoder β α) : List (List β) → List β → List α
  | [], _ => []
  | read :: rest, buffer =>
      let drained := drain decode ((buffer ++ read).length + 1) (buffer ++ read)
      drained.1 ++ receive decode rest drained.2

/-- Parse the whole buffer, or wait. -/
def wholeBuffer (parse : List β → Option α) : Decoder β α := fun buffer =>
  if buffer.isEmpty then (none, buffer)
  else
    match parse buffer with
    | none => (none, buffer)
    | some item => (some item, [])

/-- The positions at which the pieces end, counted from `start`. -/
def cuts (start : Nat) : List (List β) → List Nat
  | [] => []
  | piece :: rest => (start + piece.length) :: cuts (start + piece.length) rest

variable {parse : List β → Option α} {reads : List (List β)} {buffer : List β}

theorem drain_of_none (hbuffer : buffer ≠ []) (hparse : parse buffer = none) :
    drain (wholeBuffer parse) (buffer.length + 1) buffer = ([], buffer) := by
  simp [drain, wholeBuffer, hbuffer, hparse]

theorem drain_of_some {item : α} (hbuffer : buffer ≠ []) (hparse : parse buffer = some item) :
    drain (wholeBuffer parse) (buffer.length + 1) buffer = ([item], []) := by
  have hlength : 0 < buffer.length := List.length_pos_iff.mpr hbuffer
  obtain ⟨fuel, hfuel⟩ : ∃ fuel, buffer.length = fuel + 1 := ⟨buffer.length - 1, by omega⟩
  rw [hfuel]
  simp [drain, wholeBuffer, hbuffer, hparse]

/-- The first item comes from the first prefix, among those that end at a cut,
that can be parsed. -/
theorem head?_receive (hreads : ∀ read ∈ reads, read ≠ []) :
    (receive (wholeBuffer parse) reads buffer).head? =
      (cuts buffer.length reads).findSome? fun n => parse ((buffer ++ reads.flatten).take n) := by
  induction reads generalizing buffer with
  | nil => rfl
  | cons read rest ih =>
      have hrest := fun other hother => hreads other (List.mem_cons_of_mem read hother)
      have hbuffer : buffer ++ read ≠ [] := by
        simp [hreads read List.mem_cons_self]
      have hstream : buffer ++ (read :: rest).flatten = (buffer ++ read) ++ rest.flatten := by
        simp
      have hfirst : ((buffer ++ read) ++ rest.flatten).take (buffer.length + read.length) =
          buffer ++ read := by
        rw [← List.length_append, List.take_left]
      simp only [receive, cuts, List.findSome?_cons]
      rw [hstream, hfirst]
      cases hparse : parse (buffer ++ read) with
      | none =>
          rw [drain_of_none hbuffer hparse]
          simp only [List.nil_append]
          rw [ih hrest, List.length_append]
      | some item =>
          rw [drain_of_some hbuffer hparse]
          rfl

/-! ## Positions -/

theorem cuts_append (start : Nat) (first second : List (List β)) :
    cuts start (first ++ second) =
      cuts start first ++ cuts (start + first.flatten.length) second := by
  induction first generalizing start with
  | nil => rfl
  | cons piece rest ih => simp [cuts, ih, Nat.add_assoc]

theorem lt_of_mem_cuts {start n : Nat} {pieces : List (List β)}
    (hpieces : ∀ piece ∈ pieces, piece ≠ []) (hn : n ∈ cuts start pieces) : start < n := by
  induction pieces generalizing start with
  | nil => simp [cuts] at hn
  | cons piece rest ih =>
      have hpiece : 0 < piece.length :=
        List.length_pos_iff.mpr (hpieces piece List.mem_cons_self)
      rcases List.mem_cons.mp hn with rfl | hlater
      · omega
      · have := ih (fun other hother => hpieces other (List.mem_cons_of_mem piece hother)) hlater
        omega

theorem le_of_mem_cuts {start n : Nat} {pieces : List (List β)} (hn : n ∈ cuts start pieces) :
    n ≤ start + pieces.flatten.length := by
  induction pieces generalizing start with
  | nil => simp [cuts] at hn
  | cons piece rest ih =>
      rw [List.flatten_cons, List.length_append]
      rcases List.mem_cons.mp hn with rfl | hlater
      · omega
      · have := ih hlater
        omega

theorem cuts_pairwise {pieces : List (List β)} (hpieces : ∀ piece ∈ pieces, piece ≠ [])
    (start : Nat) : (cuts start pieces).Pairwise (· < ·) := by
  induction pieces generalizing start with
  | nil => exact List.Pairwise.nil
  | cons piece rest ih =>
      have hrest := fun other hother => hpieces other (List.mem_cons_of_mem piece hother)
      exact List.Pairwise.cons (fun n hn => lt_of_mem_cuts hrest hn) (ih hrest _)

/-- The first item is what the whole stream is parsed to, if no shorter prefix that
ends at a cut can be parsed. -/
theorem head?_receive_of_none {stream : List β} {item : α} (hreads : ∀ read ∈ reads, read ≠ [])
    (hstream : reads.flatten = stream) (hempty : stream ≠ []) (hwhole : parse stream = some item)
    (hnone : ∀ n ∈ cuts 0 reads, n < stream.length → parse (stream.take n) = none) :
    (receive (wholeBuffer parse) reads []).head? = some item := by
  rw [head?_receive hreads, List.nil_append, hstream, List.length_nil,
    List.findSome?_eq_some_iff]
  -- the last cut is the end of the stream, where the whole of it is parsed
  have hsome : reads ≠ [] := by
    rintro rfl
    exact hempty (by simpa using hstream.symm)
  obtain ⟨init, last, rfl⟩ := (List.eq_nil_or_concat' reads).resolve_left hsome
  have hlast : 0 < last.length := List.length_pos_iff.mpr (hreads last (by simp))
  have hlength : stream.length = init.flatten.length + last.length := by
    simp [← hstream]
  rw [cuts_append] at hnone ⊢
  refine ⟨cuts 0 init, stream.length, [], by simp [cuts, hlength], ?_, fun n hn => ?_⟩
  · rw [List.take_length, hwhole]
  · have := le_of_mem_cuts hn
    exact hnone n (List.mem_append_left _ hn) (by omega)

/-- The first item is what the whole stream is parsed to, if and only if no
shorter prefix that ends at a cut can be parsed. -/
theorem head?_receive_eq_some_iff {stream : List β} {item : α} (hreads : ∀ read ∈ reads, read ≠ [])
    (hstream : reads.flatten = stream) (hempty : stream ≠ []) (hwhole : parse stream = some item)
    (hshorter : ∀ n < stream.length, parse (stream.take n) ≠ some item) :
    (receive (wholeBuffer parse) reads []).head? = some item ↔
      ∀ n ∈ cuts 0 reads, n < stream.length → parse (stream.take n) = none := by
  refine ⟨fun hhead => ?_, head?_receive_of_none hreads hstream hempty hwhole⟩
  rw [head?_receive hreads, List.nil_append, hstream, List.length_nil,
    List.findSome?_eq_some_iff] at hhead
  obtain ⟨before, first, after, hsplit, hfirst, hbefore⟩ := hhead
  intro n hn hshort
  have hend : stream.length ≤ first := by
    by_contra hlt
    exact hshorter first (by omega) hfirst
  have hsorted := cuts_pairwise hreads 0
  rw [hsplit] at hn hsorted
  rcases List.mem_append.mp hn with hmem | hmem
  · exact hbefore n hmem
  · -- nothing from the end of the stream on is a shorter prefix
    have hlater := List.pairwise_cons.mp (List.pairwise_append.mp hsorted).2.1
    rcases List.mem_cons.mp hmem with rfl | hmem
    · omega
    · have := hlater.1 n hmem
      omega

/-! ## Messages that end at a cut -/

/-- The messages whose encodings end at one of the positions. -/
def kept (encode : α → List β) (positions : List Nat) : Nat → List α → List α
  | _, [] => []
  | start, message :: rest =>
      if start + (encode message).length ∈ positions then
        message :: kept encode positions (start + (encode message).length) rest
      else kept encode positions (start + (encode message).length) rest

variable {encode : α → List β} {positions : List Nat} {start : Nat}

theorem kept_append (first second : List α) :
    kept encode positions start (first ++ second) =
      kept encode positions start first ++
        kept encode positions (start + (first.flatMap encode).length) second := by
  induction first generalizing start with
  | nil => rfl
  | cons message rest ih =>
      simp only [List.cons_append, kept, ih, List.flatMap_cons, List.length_append, Nat.add_assoc]
      split <;> rfl

theorem kept_congr {others : List Nat} {messages : List α}
    (hsame : ∀ n ∈ cuts start (messages.map encode), n ∈ positions ↔ n ∈ others) :
    kept encode positions start messages = kept encode others start messages := by
  induction messages generalizing start with
  | nil => rfl
  | cons message rest ih =>
      simp only [kept, hsame _ List.mem_cons_self]
      rw [ih fun n hn => hsame n (List.mem_cons_of_mem _ hn)]

theorem kept_eq_nil {messages : List α}
    (hnone : ∀ n ∈ cuts start (messages.map encode), n ∉ positions) :
    kept encode positions start messages = [] := by
  induction messages generalizing start with
  | nil => rfl
  | cons message rest ih =>
      rw [kept, if_neg (hnone _ List.mem_cons_self),
        ih fun n hn => hnone n (List.mem_cons_of_mem _ hn)]

theorem kept_sublist (encode : α → List β) (positions : List Nat) (start : Nat)
    (messages : List α) : (kept encode positions start messages).Sublist messages := by
  induction messages generalizing start with
  | nil => exact List.Sublist.refl _
  | cons message rest ih =>
      unfold kept
      split
      · exact (ih _).cons_cons message
      · exact (ih _).cons message

/-- All messages are kept if and only if each ends at one of the positions. -/
theorem kept_eq_self_iff {messages : List α} :
    kept encode positions start messages = messages ↔
      ∀ n ∈ cuts start (messages.map encode), n ∈ positions := by
  induction messages generalizing start with
  | nil => simp [kept, cuts]
  | cons message rest ih =>
      rw [List.map_cons, cuts, List.forall_mem_cons, ← ih, kept]
      by_cases hend : start + (encode message).length ∈ positions
      · simp [hend]
      · -- once a message is lost, what is left is too short
        rw [if_neg hend]
        refine iff_of_false (fun hsame => ?_) fun hboth => hend hboth.1
        have hlength := (kept_sublist encode positions (start + (encode message).length)
          rest).length_le
        rw [hsame, List.length_cons] at hlength
        omega

/-! ## The receiver without framing -/

/-- Parsing concatenated encodings of valid messages yields the last of them,
unless it is incomplete. -/
structure LastWins (encode : α → List β) (parse : List β → Option α) (valid : α → Prop) : Prop where
  nonempty : ∀ message, valid message → encode message ≠ []
  whole : ∀ (messages : List α) message, (∀ other ∈ messages, valid other) → valid message →
    parse (messages.flatMap encode ++ encode message) = some message
  broken : ∀ (messages : List α) message front, (∀ other ∈ messages, valid other) → valid message →
    front <+: encode message → front ≠ [] → front ≠ encode message →
    parse (messages.flatMap encode ++ front) = none

/-- A prefix of a stream of messages is a sequence of whole messages, possibly
with a part of the next one. -/
theorem prefix_cases {messages : List α} {front : List β}
    (hfront : front <+: messages.flatMap encode) :
    (∃ first second, messages = first ++ second ∧ front = first.flatMap encode) ∨
    ∃ first message second part, messages = first ++ message :: second ∧
      part <+: encode message ∧ part ≠ [] ∧ part ≠ encode message ∧
      front = first.flatMap encode ++ part := by
  induction messages generalizing front with
  | nil => exact .inl ⟨[], [], rfl, by simpa using hfront⟩
  | cons message rest ih =>
      rw [List.flatMap_cons] at hfront
      by_cases hpart : front <+: encode message
      · by_cases hempty : front = []
        · exact .inl ⟨[], message :: rest, rfl, hempty⟩
        by_cases hwhole : front = encode message
        · exact .inl ⟨[message], rest, rfl, by simp [hwhole]⟩
        · exact .inr ⟨[], message, rest, front, rfl, hpart, hempty, hwhole, rfl⟩
      · -- the prefix goes beyond the first message
        have hbeyond : encode message <+: front :=
          (List.prefix_or_prefix_of_prefix hfront (List.prefix_append _ _)).resolve_left hpart
        obtain ⟨back, rfl⟩ := hbeyond
        rcases ih ((List.prefix_append_right_inj _).mp hfront) with
          ⟨first, second, rfl, rfl⟩ |
          ⟨first, other, second, part, rfl, hother, hempty, hbroken, rfl⟩
        · exact .inl ⟨message :: first, second, rfl, rfl⟩
        · exact .inr ⟨message :: first, other, second, part, rfl, hother, hempty, hbroken,
            by simp⟩

private theorem encodings_nonempty {valid : α → Prop} (hlast : LastWins encode parse valid)
    {messages : List α} (hvalid : ∀ message ∈ messages, valid message) :
    ∀ piece ∈ messages.map encode, piece ≠ [] := by
  intro piece hpiece
  obtain ⟨message, hmessage, rfl⟩ := List.mem_map.mp hpiece
  exact hlast.nonempty message (hvalid message hmessage)

/-- A cut at the end of a message keeps that message and none before it. -/
private theorem kept_of_whole {valid : α → Prop} (hlast : LastWins encode parse valid)
    {first second : List α} {message : α} {cut : Nat} (hmessage : valid message)
    (hsecond : ∀ other ∈ second, valid other) (hlater : ∀ n ∈ positions, cut < n)
    (hcut : cut = start + (first.flatMap encode).length + (encode message).length) :
    kept encode (cut :: positions) start (first ++ message :: second) =
      message :: kept encode positions cut second := by
  -- the messages in front end before every position
  have hlost : kept encode (cut :: positions) start first = [] := by
    apply kept_eq_nil
    intro n hn hmem
    have hbefore := le_of_mem_cuts hn
    rw [← List.flatMap_def] at hbefore
    have hlength := List.length_pos_iff.mpr (hlast.nonempty message hmessage)
    rcases List.mem_cons.mp hmem with heq | hmem
    · omega
    · have := hlater n hmem
      omega
  -- and those behind end after this one
  have hothers : kept encode (cut :: positions) cut second = kept encode positions cut second := by
    apply kept_congr
    intro n hn
    have hbeyond := lt_of_mem_cuts (encodings_nonempty hlast hsecond) hn
    rw [List.mem_cons]
    exact ⟨fun h => h.resolve_left (by omega), .inr⟩
  rw [kept_append, hlost, List.nil_append, kept, ← hcut, if_pos List.mem_cons_self, hothers]

/-- A cut inside a message keeps nothing. -/
private theorem kept_of_broken {valid : α → Prop} (hlast : LastWins encode parse valid)
    {first second : List α} {message : α} {part : List β} {cut : Nat}
    (hsecond : ∀ other ∈ second, valid other) (hpart : part <+: encode message)
    (hempty : part ≠ []) (hbroken : part ≠ encode message)
    (hcut : cut = start + (first.flatMap encode).length + part.length) :
    kept encode (cut :: positions) start (first ++ message :: second) =
      kept encode positions start (first ++ message :: second) := by
  have hpositive : 0 < part.length := List.length_pos_iff.mpr hempty
  have hshort : part.length < (encode message).length :=
    Nat.lt_of_le_of_ne hpart.length_le fun heq => hbroken (hpart.eq_of_length heq)
  apply kept_congr
  intro n hn
  have hne : n ≠ cut := by
    rw [List.map_append, cuts_append, List.mem_append, ← List.flatMap_def] at hn
    rcases hn with hbefore | hafter
    · have := le_of_mem_cuts hbefore
      rw [← List.flatMap_def] at this
      omega
    · rw [List.map_cons, cuts, List.mem_cons] at hafter
      rcases hafter with heq | hmem
      · omega
      · have := lt_of_mem_cuts (encodings_nonempty hlast hsecond) hmem
        omega
  rw [List.mem_cons]
  exact ⟨fun h => h.resolve_left hne, .inr⟩

/-- The receiver delivers the messages that end at a cut. -/
theorem receive_eq_kept {valid : α → Prop} (hlast : LastWins encode parse valid)
    {messages : List α} (hvalid : ∀ message ∈ messages, valid message)
    (hreads : ∀ read ∈ reads, read ≠ [])
    (hstream : buffer ++ reads.flatten = messages.flatMap encode) :
    receive (wholeBuffer parse) reads buffer =
      kept encode (cuts (start + buffer.length) reads) start messages := by
  -- the buffer starts where `messages` starts, and the reads bring the rest of it
  induction reads generalizing buffer messages start with
  | nil => exact (kept_eq_nil (by simp [cuts])).symm
  | cons read rest ih =>
      have hrest := fun other hother => hreads other (List.mem_cons_of_mem read hother)
      have hbuffer : buffer ++ read ≠ [] := by
        simp [hreads read List.mem_cons_self]
      rw [List.flatten_cons, ← List.append_assoc] at hstream
      have hcuts : cuts (start + buffer.length) (read :: rest) =
          (start + (buffer ++ read).length) :: cuts (start + (buffer ++ read).length) rest := by
        simp [cuts, Nat.add_assoc]
      rw [hcuts, receive]
      rcases prefix_cases ⟨_, hstream⟩ with ⟨first, second, rfl, hfirst⟩ |
        ⟨first, message, second, part, rfl, hpart, hempty, hbroken, hfirst⟩
      · -- the read ends where a message ends: that message comes out
        have hne : first ≠ [] := by
          rintro rfl
          exact hbuffer hfirst
        obtain ⟨init, message, rfl⟩ := (List.eq_nil_or_concat' first).resolve_left hne
        rw [List.append_assoc, List.singleton_append, List.forall_mem_append,
          List.forall_mem_cons] at hvalid
        obtain ⟨hinit, hmessage, hsecond⟩ := hvalid
        rw [List.flatMap_append, List.flatMap_singleton] at hfirst
        have hparse : parse (buffer ++ read) = some message := by
          rw [hfirst]
          exact hlast.whole init message hinit hmessage
        have hposition : start + (buffer ++ read).length =
            start + (init.flatMap encode).length + (encode message).length := by
          rw [hfirst, List.length_append, Nat.add_assoc]
        have hrests : [] ++ rest.flatten = second.flatMap encode := by
          rw [List.flatMap_append, List.flatMap_append, List.flatMap_singleton, hfirst] at hstream
          exact List.append_cancel_left hstream
        have hdone := @ih [] (start + (buffer ++ read).length) second hsecond hrest hrests
        rw [List.length_nil, Nat.add_zero] at hdone
        rw [drain_of_some hbuffer hparse, List.append_assoc, List.singleton_append,
          List.singleton_append, hdone, kept_of_whole hlast hmessage hsecond
          (fun n hn => lt_of_mem_cuts hrest hn) hposition]
      · -- the read ends inside a message: nothing comes out, and nothing is forgotten
        have hparse : parse (buffer ++ read) = none := by
          rw [List.forall_mem_append] at hvalid
          rw [hfirst]
          exact hlast.broken first message part hvalid.1 (hvalid.2 message List.mem_cons_self)
            hpart hempty hbroken
        have hposition : start + (buffer ++ read).length =
            start + (first.flatMap encode).length + part.length := by
          rw [hfirst, List.length_append, Nat.add_assoc]
        have hsecond : ∀ other ∈ second, valid other := by
          rw [List.forall_mem_append, List.forall_mem_cons] at hvalid
          exact hvalid.2.2
        rw [drain_of_none hbuffer hparse, List.nil_append, ih hvalid hrest hstream,
          kept_of_broken hlast hsecond hpart hempty hbroken hposition]

end Framing
