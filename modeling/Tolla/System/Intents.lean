import Tolla.Engine.Certificates
import Tolla.Model.AltName
import Tolla.System.AltNames
import Tolla.System.Enforcement

/-!
# From a request to a lease

The intent of a certificate request travels through two languages.  The authority
puts it behind the text of an alternative name, OpenSSL reads that text as a list
of items and writes the first of them in DER, and the proxy takes the string out
of the DER again.  The way through DER changes nothing (`decodeIntent_encode`).
The way through OpenSSL's text does: a comma in the first line ends the item,
blanks at its end are dropped, line ends among them, and bytes that are not ASCII
are taken for Latin-1.  What follows the first line stays in the item, commas
included.  So the intent arrives as it was asked for exactly if it is ASCII, has
no comma before its first line end and does not end with a blank
(`intent_survives_iff`).
-/

namespace Tolla

open Effects AltName

/-! ## The item of the authority -/

/-- The part of an intent that is in the item: all of it, unless there is a comma in its first
line. -/
def carried (intent : List UInt8) : List UInt8 :=
  (if 44 ∈ intent.takeWhile inLine then intent.takeWhile (· ≠ 44) else intent).rdropWhile isSpace

/-- What stands before the intent in the text. -/
def textFront : List UInt8 := Text.utf8 "otherName" ++ 58 :: valueFront

theorem utf8_altNameText (intent : String) :
    Text.utf8 (Authority.altNameText intent) = textFront ++ Text.utf8 intent := by
  have hfront : Text.utf8 "otherName:1.3.6.1.4.1.99;UTF8:" = textFront := by decide +kernel
  unfold Authority.altNameText
  rw [Text.utf8_append, hfront]

/-- Blanks are dropped only from the end of the text behind a front that has none
there. -/
theorem rdropWhile_append {front : List UInt8} (hfront : front.rdropWhile isSpace = front)
    (text : List UInt8) :
    (front ++ text).rdropWhile isSpace = front ++ text.rdropWhile isSpace := by
  induction text using List.reverseRecOn with
  | nil => simpa using hfront
  | append_singleton text b ih =>
      rw [← List.append_assoc]
      by_cases hb : isSpace b = true
      · rw [List.rdropWhile_concat_pos _ _ _ hb, List.rdropWhile_concat_pos _ _ _ hb, ih]
      · rw [List.rdropWhile_concat_neg _ _ _ hb, List.rdropWhile_concat_neg _ _ _ hb,
          List.append_assoc]

theorem stripSpaces_valueFront (text : List UInt8) :
    stripSpaces (valueFront ++ text) = some (valueFront ++ text.rdropWhile isSpace) := by
  have hfirst : (valueFront ++ text).dropWhile isSpace = valueFront ++ text := by
    have hhead : valueFront = 49 :: valueFront.tail := by decide +kernel
    rw [hhead, List.cons_append]
    exact List.dropWhile_cons_of_neg (by decide)
  have hlast : valueFront.rdropWhile isSpace = valueFront := by decide +kernel
  have hsome : valueFront ≠ [] := by decide +kernel
  rw [stripSpaces, hfirst, rdropWhile_append hlast]
  simp [hsome]

theorem parseItem_textFront (text rest : List UInt8) :
    parseItem (textFront ++ text) rest =
      some ⟨Text.utf8 "otherName", some (valueFront ++ (text ++ rest).rdropWhile isSpace)⟩ := by
  have hname : ∀ b ∈ Text.utf8 "otherName", b ≠ 58 := by decide +kernel
  have hsplit : textFront ++ text = Text.utf8 "otherName" ++ 58 :: (valueFront ++ text) := by
    simp [textFront]
  have htake : (textFront ++ text).takeWhile (· ≠ 58) = Text.utf8 "otherName" := by
    rw [hsplit, List.takeWhile_append_of_pos (by simpa using hname)]
    simp
  have hdrop : (textFront ++ text).dropWhile (· ≠ 58) = 58 :: (valueFront ++ text) := by
    rw [hsplit, List.dropWhile_append_of_pos (by simpa using hname)]
    simp
  have hstrip : stripSpaces (Text.utf8 "otherName") = some (Text.utf8 "otherName") := by
    decide +kernel
  unfold parseItem
  rw [hdrop]
  simp only [htake, hstrip, List.append_assoc, stripSpaces_valueFront]
  rfl

/-- A text with a comma in it has a first item and others. -/
theorem splitOn_of_mem {bytes : List UInt8} (hcomma : 44 ∈ bytes) :
    ∃ next items, bytes.splitOn 44 = bytes.takeWhile (· ≠ 44) :: next :: items := by
  have hsplit : bytes = bytes.takeWhile (· ≠ 44) ++ 44 :: (bytes.dropWhile (· ≠ 44)).tail := by
    have hne : bytes.dropWhile (· ≠ 44) ≠ [] := by
      intro hnone
      have hall := List.dropWhile_eq_nil_iff.mp hnone 44 hcomma
      simp at hall
    have hhead := List.head_dropWhile_not (fun b : UInt8 => decide (b ≠ 44)) hne
    rw [decide_eq_false_iff_not, not_not] at hhead
    have hcons := List.cons_head_tail hne
    rw [hhead] at hcons
    rw [hcons, List.takeWhile_append_dropWhile]
  have hfree : (44 : UInt8) ∉ bytes.takeWhile (· ≠ 44) := by
    intro hmem
    simpa using List.mem_takeWhile_imp hmem
  cases hmore : (bytes.dropWhile (· ≠ 44)).tail.splitOn 44 with
  | nil => exact absurd hmore (List.splitOn_ne_nil _ _)
  | cons next items =>
      refine ⟨next, items, ?_⟩
      conv_lhs => rw [hsplit]
      rw [List.splitOn_append_cons_self_of_not_mem hfree, hmore]

theorem parseItems_cons (rest item next : List UInt8) (items : List (List UInt8)) :
    parseItems rest (item :: next :: items) = (do
      let first ← parseItem item []
      let others ← parseItems rest (next :: items)
      return first :: others) := rfl

/-- The first item is that of the intent. -/
theorem parseList_textFront {intent : List UInt8} {items : List Item}
    (hitems : parseList (textFront ++ intent) = some items) :
    ∃ others, items =
      ⟨Text.utf8 "otherName", some (valueFront ++ carried intent)⟩ :: others := by
  have hfrontLine : ∀ b ∈ textFront, inLine b = true := by decide +kernel
  have hfrontItem : ∀ b ∈ textFront, decide (b ≠ 44) = true := by decide +kernel
  unfold parseList at hitems
  rw [List.takeWhile_append_of_pos hfrontLine, List.dropWhile_append_of_pos hfrontLine] at hitems
  have hmem : 44 ∈ textFront ++ intent.takeWhile inLine ↔ 44 ∈ intent.takeWhile inLine := by
    have hfront : (44 : UInt8) ∉ textFront := fun hmem => by simpa using hfrontItem 44 hmem
    rw [List.mem_append, or_iff_right hfront]
  by_cases hcomma : 44 ∈ intent.takeWhile inLine
  · -- the item ends at the comma
    obtain ⟨next, more, hsplit⟩ := splitOn_of_mem (hmem.mpr hcomma)
    have hline : (intent.takeWhile inLine).takeWhile (· ≠ 44) = intent.takeWhile (· ≠ 44) := by
      conv_rhs => rw [← List.takeWhile_append_dropWhile (p := inLine) (l := intent)]
      rw [List.takeWhile_append, if_neg]
      intro hlength
      have hall := (List.takeWhile_prefix fun b : UInt8 => decide (b ≠ 44)).eq_of_length hlength
      have hnot := List.takeWhile_eq_self_iff.mp hall 44 hcomma
      simp at hnot
    rw [hsplit, List.takeWhile_append_of_pos hfrontItem, hline, parseItems_cons,
      parseItem_textFront, List.append_nil] at hitems
    obtain ⟨first, hfirst, hitems⟩ := Option.bind_eq_some_iff.mp hitems
    obtain rfl := Option.some.inj hfirst
    obtain ⟨others, -, hitems⟩ := Option.bind_eq_some_iff.mp hitems
    obtain rfl := Option.some.inj hitems
    rw [carried, if_pos hcomma]
    exact ⟨others, rfl⟩
  · rw [List.splitOn_eq_singleton (mt hmem.mp hcomma), parseItems, parseItem_textFront,
      List.takeWhile_append_dropWhile] at hitems
    obtain rfl := Option.some.inj hitems
    rw [carried, if_neg hcomma]
    exact ⟨[], rfl⟩

/-- The first name of the extension is an `otherName` with what is carried of the
intent. -/
theorem subjectAltName_textFront {other : Item → Option (List UInt8)} {intent value : List UInt8}
    (hvalue : subjectAltName other (textFront ++ intent) = some value) :
    ∃ more, value = Der.encode 0x30 (otherName (carried intent) ++ more) ∧
      value.length < 2 ^ 31 := by
  have hname : generalName other ⟨Text.utf8 "otherName", some (valueFront ++ carried intent)⟩ =
      some (otherName (carried intent)) := by
    simp [generalName]
  unfold subjectAltName at hvalue
  obtain ⟨items, hitems, hvalue⟩ := Option.bind_eq_some_iff.mp hvalue
  obtain ⟨others, rfl⟩ := parseList_textFront hitems
  obtain ⟨names, hnames, hvalue⟩ := Option.bind_eq_some_iff.mp hvalue
  rw [List.mapM_cons] at hnames
  obtain ⟨name, hfirst, hnames⟩ := Option.bind_eq_some_iff.mp hnames
  obtain ⟨rest, -, hnames⟩ := Option.bind_eq_some_iff.mp hnames
  obtain rfl := Option.some.inj (hname.symm.trans hfirst)
  obtain rfl := Option.some.inj hnames
  simp only at hvalue
  split at hvalue
  · obtain rfl := Option.some.inj hvalue
    exact ⟨rest.flatten, by rw [List.flatten_cons], ‹_›⟩
  · cases hvalue

/-! ## Through DER -/

/-- The proxy reads the string back. -/
theorem decodeIntent_encode {text more : List UInt8}
    (hlength : (Der.encode 0x30 (otherName text ++ more)).length < 2 ^ 31) :
    decodeIntent (Der.encode 0x30 (otherName text ++ more)) =
      .ok (Text.utf8 (Text.latin1 text)) := by
  have hname : otherName text = (intentName (Text.utf8 (Text.latin1 text))).der := rfl
  have hshort := Der.length_le_encode 0x30 (otherName text ++ more)
  rw [hname] at hlength hshort ⊢
  exact decodeIntent_intentName (Text.fromUtf8_utf8 _) (by omega)

/-! ## What is carried -/

theorem isSpace_ascii {b : UInt8} (hb : isSpace b = true) : b < 128 := by
  simp only [isSpace, Bool.or_eq_true, beq_iff_eq, Bool.and_eq_true, decide_eq_true_eq] at hb
  rcases hb with rfl | ⟨-, hle⟩
  · decide
  · exact UInt8.lt_of_le_of_lt hle (by decide)

/-- What is dropped from the end begins with a blank. -/
theorem head_rtakeWhile_ascii {text rest : List UInt8}
    (hrest : ∀ b, rest.head? = some b → b < 128) {b : UInt8}
    (hb : (text.rtakeWhile isSpace ++ rest).head? = some b) : b < 128 := by
  cases hblanks : text.rtakeWhile isSpace with
  | nil =>
      rw [hblanks, List.nil_append] at hb
      exact hrest b hb
  | cons blank blanks =>
      have hmem : blank ∈ text.rtakeWhile isSpace := by
        rw [hblanks]
        exact List.mem_cons_self
      rw [hblanks] at hb
      obtain rfl := Option.some.inj hb
      exact isSpace_ascii (List.mem_rtakeWhile_imp hmem)

/-- What is not carried begins with an ASCII byte: a blank, or the comma that ends the
item. -/
theorem exists_carried (intent : List UInt8) :
    ∃ rest, intent = carried intent ++ rest ∧ ∀ b, rest.head? = some b → b < 128 := by
  unfold carried
  split
  · refine ⟨(intent.takeWhile (· ≠ 44)).rtakeWhile isSpace ++ intent.dropWhile (· ≠ 44), ?_, ?_⟩
    · rw [← List.append_assoc, List.rdropWhile_append_rtakeWhile, List.takeWhile_append_dropWhile]
    · intro b hb
      refine head_rtakeWhile_ascii (fun c hc => ?_) hb
      have hend := List.head?_dropWhile_not (fun b : UInt8 => decide (b ≠ 44)) intent
      rw [hc] at hend
      simp only [decide_eq_false_iff_not, not_not] at hend
      rw [hend]
      decide
  · refine ⟨intent.rtakeWhile isSpace, List.rdropWhile_append_rtakeWhile.symm, ?_⟩
    intro b hb
    rw [← List.append_nil (intent.rtakeWhile isSpace)] at hb
    exact head_rtakeWhile_ascii (by simp) hb

/-- All of the intent is carried if no comma ends the item and its end is not a blank. -/
theorem carried_eq_self_iff (intent : List UInt8) :
    carried intent = intent ↔ 44 ∉ intent.takeWhile inLine ∧
      ∀ b, intent.getLast? = some b → isSpace b = false := by
  have hlast : intent.rdropWhile isSpace = intent ↔
      ∀ b, intent.getLast? = some b → isSpace b = false := by
    rw [List.rdropWhile_eq_self_iff]
    constructor
    · intro hend b hb
      obtain ⟨hne, rfl⟩ := List.mem_getLast?_eq_getLast hb
      simpa using hend hne
    · intro hend hne
      simpa using hend _ (List.getLast?_eq_some_getLast hne)
  by_cases hcomma : 44 ∈ intent.takeWhile inLine
  · -- the comma is not carried
    have hcut : carried intent ≠ intent := by
      rw [carried, if_pos hcomma]
      intro hsame
      have hmem : (44 : UInt8) ∈ intent := (List.takeWhile_prefix inLine).subset hcomma
      rw [← hsame] at hmem
      have hmem := (List.rdropWhile_prefix isSpace _).subset hmem
      simpa using List.mem_takeWhile_imp hmem
    exact iff_of_false hcut fun hplain => hplain.1 hcomma
  · rw [carried, if_neg hcomma, hlast]
    exact (and_iff_right hcomma).symm

/-- The intent has only ASCII in it, no comma before its first line end, and does not end
with a blank. -/
structure PlainIntent (intent : List UInt8) : Prop where
  ascii : ∀ b ∈ intent, b < 128
  item : 44 ∉ intent.takeWhile inLine
  last : ∀ b, intent.getLast? = some b → isSpace b = false

theorem latin1_carried_iff (intent : String) :
    Text.latin1 (carried (Text.utf8 intent)) = intent ↔ PlainIntent (Text.utf8 intent) := by
  obtain ⟨rest, hrest, hhead⟩ := exists_carried (Text.utf8 intent)
  have hempty : rest = [] ↔ carried (Text.utf8 intent) = Text.utf8 intent := by
    constructor
    · rintro rfl
      rw [List.append_nil] at hrest
      exact hrest.symm
    · intro hsame
      have hlength := congrArg List.length hrest
      rw [hsame, List.length_append] at hlength
      exact List.length_eq_zero_iff.mp (by omega)
  rw [Text.latin1_eq_iff hrest hhead, hempty]
  constructor
  · intro hsame
    obtain ⟨hsame, hascii⟩ := hsame
    obtain ⟨hitem, hlast⟩ := (carried_eq_self_iff (Text.utf8 intent)).mp hsame
    rw [hsame] at hascii
    exact ⟨hascii, hitem, hlast⟩
  · intro hplain
    have hsame := (carried_eq_self_iff (Text.utf8 intent)).mpr ⟨hplain.item, hplain.last⟩
    refine ⟨hsame, ?_⟩
    rw [hsame]
    exact hplain.ascii

/-! ## The intent of a certificate -/

/-- Of the texts of alternative names that the authority writes, OpenSSL accepts only those
that it can make an extension of, and it puts that extension into the certificates that
the authority builds with them.  `parse` is the proxy's reading of a certificate in its
PEM form, `other` what OpenSSL makes of items that the authority does not write. -/
structure OpenSsl.Conforms (openssl : OpenSsl) (other : Item → Option (List UInt8))
    (parse : List UInt8 → Certificate) : Prop where
  accepts : ∀ intent, openssl.extension .subjectAltName (Authority.altNameText intent) = none →
    ∃ value, subjectAltName other (Text.utf8 (Authority.altNameText intent)) = some value
  presents : ∀ uuid intent certificate value,
    Authority.Identity openssl uuid intent certificate →
    subjectAltName other (Text.utf8 (Authority.altNameText intent)) = some value →
    (parse (openssl.toPem certificate)).subjectAltName = some ⟨[2, 5, 29, 17], value⟩

variable {env : Env} {other : Item → Option (List UInt8)} {parse : List UInt8 → Certificate}

/-- The intent that the proxy takes out of the alternative name. -/
def Certificate.Carries (cert : Certificate) (intent : List UInt8) : Prop :=
  ∃ ext, cert.subjectAltName = some ext ∧ decodeIntent ext.value = .ok intent

/-- The proxy takes out what OpenSSL carried of the intent. -/
theorem carries_of_signed (hconforms : env.openssl.Conforms other parse) {intent : String}
    {record : Intent} {reply : Proto.Certificate}
    (hsigned : Authority.Signed env intent record reply) (bytes : List UInt8) :
    (parse reply.request).Carries bytes ↔
      Text.utf8 (Text.latin1 (carried (Text.utf8 intent))) = bytes := by
  obtain ⟨x509, hrequest, hidentity⟩ := hsigned.certificate
  obtain ⟨value, hvalue⟩ := hconforms.accepts intent hidentity.named
  have hname := hconforms.presents env.uuid intent x509 value hidentity hvalue
  rw [utf8_altNameText] at hvalue
  obtain ⟨more, rfl, hlength⟩ := subjectAltName_textFront hvalue
  have hdecode := decodeIntent_encode hlength
  rw [hrequest]
  constructor
  · intro hcarries
    obtain ⟨ext, hext, hbytes⟩ := hcarries
    obtain rfl := Option.some.inj (hname.symm.trans hext)
    exact Except.ok.inj (hdecode.symm.trans hbytes)
  · rintro rfl
    exact ⟨_, hname, hdecode⟩

/-- A certificate that was signed carries the intent that was asked for, which is also
the one recorded, if and only if the intent is plain. -/
theorem intent_survives_iff (hconforms : env.openssl.Conforms other parse) {buf : List UInt8}
    {intent : String} {world after : World} {record : Intent} {reply : Proto.Certificate}
    (hok : Authority.signCertificate env buf intent world = (.ok (record, reply), after)) :
    ((parse reply.request).Carries (Text.utf8 intent) ∧ record.intent = [intent]) ↔
      PlainIntent (Text.utf8 intent) := by
  obtain ⟨-, hsigned⟩ := Authority.signCertificate_ok hok
  have hrecord : record.intent = [intent] := by rw [hsigned.record]
  have hsame : Text.utf8 (Text.latin1 (carried (Text.utf8 intent))) = Text.utf8 intent ↔
      Text.latin1 (carried (Text.utf8 intent)) = intent := Text.utf8_injective.eq_iff
  rw [carries_of_signed hconforms hsigned, hsame, latin1_carried_iff]
  exact and_iff_left hrecord

/-! ## Two intents -/

/-- A certificate with the alternative names: issued by and to nobody, for an Ed25519
key that is all zero. -/
def certificateWith (names : List UInt8) : Certificate where
  raw :=
    let algorithm := Der.encode 0x30 (Der.encode 0x06 [0x2b, 0x65, 0x70])
    let key := Der.encode 0x30 (algorithm ++ Der.encode 0x03 (List.replicate 33 0))
    let validity := Der.encode 0x30 (Der.encode 0x17 (Text.utf8 "170101000000Z") ++
      Der.encode 0x17 (Text.utf8 "270101000000Z"))
    let extension := Der.encode 0x30 (Der.encode 0x06 [0x55, 0x1d, 0x11] ++ Der.encode 0x04 names)
    Der.encode 0x30 (Der.encode 0x30 (Der.encode 0xa0 (Der.encode 0x02 [2]) ++
      Der.encode 0x02 [0] ++ algorithm ++ Der.encode 0x30 [] ++ validity ++ Der.encode 0x30 [] ++
      key ++ Der.encode 0xa3 (Der.encode 0x30 extension)) ++ algorithm ++
      Der.encode 0x03 (List.replicate 33 0))

/-- An OpenSSL that is asked for one intent only. -/
def OpenSsl.only (intent : String) : OpenSsl :=
  { OpenSsl.sample with
    extension := fun nid text =>
      if nid = .subjectAltName ∧ text ≠ Authority.altNameText intent then some "unsupported"
      else none
    toPem := fun _ => [45] }

/-- The alternative names that it makes, and the certificate they are in. -/
def namesFor (intent : String) : List UInt8 := Der.encode 0x30 (otherName (Text.utf8 intent))

def certificateFor (intent : String) : Certificate := certificateWith (namesFor intent)

theorem OpenSsl.only_conforms {openssl : OpenSsl} {intent : String}
    (hextension : openssl.extension = (OpenSsl.only intent).extension)
    (hvalue : subjectAltName (fun _ => none) (Text.utf8 (Authority.altNameText intent)) =
      some (namesFor intent))
    (hcert : (certificateFor intent).subjectAltName = some ⟨[2, 5, 29, 17], namesFor intent⟩) :
    openssl.Conforms (fun _ => none) (fun _ => certificateFor intent) := by
  have honly {text : String} (haccepted : openssl.extension .subjectAltName text = none) :
      text = Authority.altNameText intent := by
    rw [hextension] at haccepted
    by_contra hother
    simp [OpenSsl.only, hother] at haccepted
  refine ⟨fun asked haccepted => ?_, fun uuid asked certificate found hidentity hfound => ?_⟩
  · rw [honly haccepted]
    exact ⟨namesFor intent, hvalue⟩
  · rw [honly hidentity.named, hvalue] at hfound
    rw [hcert, Option.some.inj hfound]

/-- Bob asks for a certificate with the intent. -/
def signed (intent : String) : Outcome String (Intent × Proto.Certificate) × World :=
  Authority.signCertificate { Env.calm 0 with openssl := OpenSsl.only intent } [] intent
    Service.blank.world

/-- A letter that is not ASCII becomes two others. -/
theorem intent_changed :
    ¬ ∀ (env : Env) (other : Item → Option (List UInt8)) (parse : List UInt8 → Certificate),
      env.openssl.Conforms other parse → ∀ (buf : List UInt8) (intent : String)
      (world after : World) (record : Intent) (reply : Proto.Certificate),
      Authority.signCertificate env buf intent world = (.ok (record, reply), after) →
      (parse reply.request).Carries (Text.utf8 intent) ∧ record.intent = [intent] := by
  intro hall
  have hconforms : (OpenSsl.only "på").Conforms (fun _ => none)
      (fun _ => certificateFor "på") :=
    OpenSsl.only_conforms rfl (by decide +kernel) (by decide +kernel)
  have hok : signed "på" =
      (.ok (⟨Authority.simple 0, ["på"]⟩, ⟨"", [45], [45]⟩), (signed "på").2) :=
    Prod.ext (by decide +kernel) rfl
  obtain ⟨⟨ext, hext, hdecode⟩, -⟩ :=
    hall { Env.calm 0 with openssl := OpenSsl.only "på" } _ _ hconforms [] "på" _ _ _ _ hok
  have hname : (certificateFor "på").subjectAltName =
      some ⟨[2, 5, 29, 17], namesFor "på"⟩ := by decide +kernel
  obtain rfl := Option.some.inj (hname.symm.trans hext)
  exact absurd hdecode (by decide +kernel)

/-- An intent that arrives. -/
theorem intent_survives_iff_research :
    ((certificateFor "research").Carries (Text.utf8 "research") ∧
        (⟨Authority.simple 0, ["research"]⟩ : Intent).intent = ["research"]) ↔
      PlainIntent (Text.utf8 "research") := by
  have hconforms : (OpenSsl.only "research").Conforms (fun _ => none)
      (fun _ => certificateFor "research") :=
    OpenSsl.only_conforms rfl (by decide +kernel) (by decide +kernel)
  have hok : signed "research" =
      (.ok (⟨Authority.simple 0, ["research"]⟩, ⟨"", [45], [45]⟩), (signed "research").2) :=
    Prod.ext (by decide +kernel) rfl
  exact @intent_survives_iff { Env.calm 0 with openssl := OpenSsl.only "research" } _ _ hconforms
    [] "research" _ _ _ _ hok

end Tolla
