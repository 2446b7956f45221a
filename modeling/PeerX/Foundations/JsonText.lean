import PeerX.Foundations.JsonTree

/-!
# JSON texts

A JSON document is a tree whose leaves are null, booleans, numbers and strings. Its text is that of
`JSON.stringify` without spaces. A string is written between quotes, where some characters and the
halves of surrogate pairs that stand alone are escaped; a number is given by its text. A text can be
read in one way only.
-/

namespace Serialization

/-! ## Strings -/

/-- The escapes of one letter: backspace, tab, line feed, form feed, return, the quote and the
backslash. -/
def shortEscapes : List (CodeUnit × CodeUnit) :=
  [(0x08, 0x62), (0x09, 0x74), (0x0A, 0x6E), (0x0C, 0x66), (0x0D, 0x72), (0x22, 0x22), (0x5C, 0x5C)]

/-- A hexadecimal digit, in lower case. -/
def hexDigit (digit : Fin 16) : CodeUnit := if digit < 10 then Fin.ofNat _ (0x30 + digit) else Fin.ofNat _ (0x57 + digit)

/-- The four hexadecimal digits of a code unit. -/
def hexDigits (u : CodeUnit) : JsString :=
  [hexDigit (Fin.ofNat 16 (u.val / 4096)), hexDigit (Fin.ofNat 16 (u.val / 256)), hexDigit (Fin.ofNat 16 (u.val / 16)),
    hexDigit (Fin.ofNat 16 u.val)]

/-- The first half of a surrogate pair. -/
def isLeading (u : CodeUnit) : Bool := 0xD800 ≤ u && u ≤ 0xDBFF

/-- The second half of a surrogate pair. -/
def isTrailing (u : CodeUnit) : Bool := 0xDC00 ≤ u && u ≤ 0xDFFF

/-- The text of a code unit that stands alone. -/
def escape (u : CodeUnit) : JsString :=
  match shortEscapes.lookup u with
  | some letter => [0x5C, letter]
  | none => if u < 0x20 ∨ isLeading u ∨ isTrailing u then 0x5C :: 0x75 :: hexDigits u else [u]

/-- A code point: a code unit, or a surrogate pair. -/
inductive CodePoint : Type
  | unit (u : CodeUnit)
  | pair (leading trailing : CodeUnit)
deriving DecidableEq

/-- The code units of a code point. -/
def CodePoint.units : CodePoint → JsString
  | .unit u => [u]
  | .pair leading trailing => [leading, trailing]

/-- The text of a code point in a string. -/
def CodePoint.text : CodePoint → JsString
  | .unit u => escape u
  | .pair leading trailing => [leading, trailing]

/-- The code points of a string. -/
def codePoints : JsString → List CodePoint
  | [] => []
  | [u] => [.unit u]
  | u :: v :: rest =>
    if isLeading u && isTrailing v then .pair u v :: codePoints rest else .unit u :: codePoints (v :: rest)

/-- The text of a string. -/
def quote (s : JsString) : JsString := 0x22 :: ((codePoints s).flatMap CodePoint.text ++ [0x22])

/-! ## Reading a string -/

theorem hexDigit_injective : Function.Injective hexDigit := by
  intro a b
  revert a b
  decide

theorem hexDigits_append_inj {u v : CodeUnit} {r s : JsString} (h : hexDigits u ++ r = hexDigits v ++ s) :
    u = v ∧ r = s := by
  simp only [hexDigits, List.cons_append, List.nil_append, List.cons.injEq] at h
  obtain ⟨h3, h2, h1, h0, hrest⟩ := h
  refine ⟨Fin.ext ?_, hrest⟩
  have e3 := congrArg Fin.val (hexDigit_injective h3)
  have e2 := congrArg Fin.val (hexDigit_injective h2)
  have e1 := congrArg Fin.val (hexDigit_injective h1)
  have e0 := congrArg Fin.val (hexDigit_injective h0)
  simp only [Fin.ofNat] at e3 e2 e1 e0
  have hu := u.isLt
  have hv := v.isLt
  omega

theorem escape_cases (u : CodeUnit) :
    (∃ letter, (u, letter) ∈ shortEscapes ∧ escape u = [0x5C, letter]) ∨
      escape u = 0x5C :: 0x75 :: hexDigits u ∨
        (escape u = [u] ∧ u ≠ 0x5C ∧ u ≠ 0x22 ∧ isLeading u = false) := by
  unfold escape
  cases hlookup : shortEscapes.lookup u with
  | some letter =>
    obtain ⟨before, after, hsplit, -⟩ := List.lookup_eq_some_iff.mp hlookup
    exact .inl ⟨letter, hsplit ▸ List.mem_append_right before List.mem_cons_self, rfl⟩
  | none =>
    by_cases hu : u < 0x20 ∨ isLeading u = true ∨ isTrailing u = true
    · exact .inr (.inl (if_pos hu))
    · obtain ⟨-, hleading, -⟩ := not_or.mp hu |>.imp id not_or.mp
      refine .inr (.inr ⟨if_neg hu, ?_, ?_, by simpa using hleading⟩)
      · rintro rfl
        cases hlookup
      · rintro rfl
        cases hlookup

theorem escape_append_inj {u v : CodeUnit} {r s : JsString} (h : escape u ++ r = escape v ++ s) : u = v ∧ r = s := by
  have hletters : ∀ a ∈ shortEscapes, a.2 ≠ 0x75 ∧ ∀ b ∈ shortEscapes, a.2 = b.2 → a.1 = b.1 := by
    simp [shortEscapes]
  rcases escape_cases u with ⟨a, ha, hu⟩ | hu | ⟨hu, hbackslash, -, -⟩ <;>
    rcases escape_cases v with ⟨b, hb, hv⟩ | hv | ⟨hv, hbackslash', -, -⟩ <;>
      rw [hu, hv] at h <;> simp only [List.cons_append, List.nil_append, List.cons.injEq, true_and] at h
  · exact ⟨(hletters _ ha).2 _ hb h.1, h.2⟩
  · exact absurd h.1 (hletters _ ha).1
  · exact absurd h.1.symm hbackslash'
  · exact absurd h.1.symm (hletters _ hb).1
  · exact hexDigits_append_inj h
  · exact absurd h.1.symm hbackslash'
  · exact absurd h.1 hbackslash
  · exact absurd h.1 hbackslash
  · exact h

theorem flatMap_codePoints (s : JsString) : (codePoints s).flatMap CodePoint.units = s := by
  induction s using codePoints.induct with
  | case1 => rfl
  | case2 u => rfl
  | case3 u v rest hpair ih =>
    rw [codePoints, if_pos hpair, List.flatMap_cons, ih]
    rfl
  | case4 u v rest hpair ih =>
    rw [codePoints, if_neg hpair, List.flatMap_cons, ih]
    rfl

/-- A pair of the code points begins with a leading surrogate. -/
def CodePoint.Paired : CodePoint → Prop
  | .unit _ => True
  | .pair leading _ => isLeading leading = true

theorem paired_of_mem {s : JsString} {c : CodePoint} (h : c ∈ codePoints s) : c.Paired := by
  induction s using codePoints.induct with
  | case1 => cases h
  | case2 u =>
    obtain rfl := List.mem_singleton.mp h
    trivial
  | case3 u v rest hpair ih =>
    rw [codePoints, if_pos hpair] at h
    rcases List.mem_cons.mp h with rfl | h
    · exact (Bool.and_eq_true_iff.mp hpair).1
    · exact ih h
  | case4 u v rest hpair ih =>
    rw [codePoints, if_neg hpair] at h
    rcases List.mem_cons.mp h with rfl | h
    · trivial
    · exact ih h

theorem escape_append_ne_pair {u leading : CodeUnit} {r s : JsString} (hleading : isLeading leading = true) :
    escape u ++ r ≠ leading :: s := by
  have hnot : isLeading 0x5C = false := by decide
  intro h
  rcases escape_cases u with ⟨a, -, hu⟩ | hu | ⟨hu, -, -, hraw⟩ <;> rw [hu] at h
  · rw [← (List.cons.inj h).1, hnot] at hleading
    cases hleading
  · rw [← (List.cons.inj h).1, hnot] at hleading
    cases hleading
  · rw [← (List.cons.inj h).1, hraw] at hleading
    cases hleading

/-- A code point is seen in the text. -/
theorem codePoint_append_inj {a b : CodePoint} (ha : a.Paired) (hb : b.Paired) {r s : JsString}
    (h : a.text ++ r = b.text ++ s) : a = b ∧ r = s := by
  cases a with
  | unit u =>
    cases b with
    | unit v =>
      obtain ⟨rfl, hrest⟩ := escape_append_inj h
      exact ⟨rfl, hrest⟩
    | pair leading trailing => exact absurd h (escape_append_ne_pair hb)
  | pair leading trailing =>
    cases b with
    | unit v => exact absurd h.symm (escape_append_ne_pair ha)
    | pair leading' trailing' =>
      simp only [CodePoint.text, List.cons_append, List.nil_append, List.cons.injEq] at h
      obtain ⟨rfl, rfl, hrest⟩ := h
      exact ⟨rfl, hrest⟩

/-- A code point does not begin with the closing quote. -/
theorem codePoint_append_ne_quote {a : CodePoint} (ha : a.Paired) {r s : JsString} : a.text ++ r ≠ 0x22 :: s := by
  have hnot : isLeading 0x22 = false := by decide
  intro h
  cases a with
  | unit u =>
    rcases escape_cases u with ⟨b, -, hu⟩ | hu | ⟨hu, -, hquote, -⟩ <;>
      rw [CodePoint.text, hu] at h
    · exact absurd (List.cons.inj h).1 (by decide)
    · exact absurd (List.cons.inj h).1 (by decide)
    · exact hquote (List.cons.inj h).1
  | pair leading trailing =>
    obtain rfl : leading = 0x22 := (List.cons.inj h).1
    exact Bool.noConfusion (hnot.symm.trans ha)

theorem flatMap_text_append_inj {cs ds : List CodePoint} (hcs : ∀ c ∈ cs, c.Paired) (hds : ∀ d ∈ ds, d.Paired)
    {r s : JsString} (h : cs.flatMap CodePoint.text ++ 0x22 :: r = ds.flatMap CodePoint.text ++ 0x22 :: s) :
    cs = ds ∧ r = s := by
  induction cs generalizing ds with
  | nil =>
    cases ds with
    | nil => exact ⟨rfl, (List.cons.inj h).2⟩
    | cons d ds =>
      rw [List.flatMap_cons, List.append_assoc] at h
      exact absurd h.symm (codePoint_append_ne_quote (hds d List.mem_cons_self))
  | cons c cs ih =>
    obtain ⟨hc, hcs'⟩ := List.forall_mem_cons.mp hcs
    rw [List.flatMap_cons, List.append_assoc] at h
    cases ds with
    | nil => exact absurd h (codePoint_append_ne_quote hc)
    | cons d ds =>
      obtain ⟨hd, hds'⟩ := List.forall_mem_cons.mp hds
      rw [List.flatMap_cons, List.append_assoc] at h
      obtain ⟨rfl, hrest⟩ := codePoint_append_inj hc hd h
      obtain ⟨rfl, hend⟩ := ih hcs' hds' hrest
      exact ⟨rfl, hend⟩

/-- **A quoted string is seen in the text.** -/
theorem quote_append_inj {s t r r' : JsString} (h : quote s ++ r = quote t ++ r') : s = t ∧ r = r' := by
  simp only [quote, List.cons_append, List.append_assoc, List.nil_append, List.cons.injEq, true_and] at h
  obtain ⟨hpoints, hrest⟩ := flatMap_text_append_inj (fun _ => paired_of_mem) (fun _ => paired_of_mem) h
  refine ⟨?_, hrest⟩
  rw [← flatMap_codePoints s, hpoints, flatMap_codePoints]

/-! ## Documents -/

/-- The code units of a number's text. -/
def isNumberUnit (u : CodeUnit) : Bool := u ∈ ascii "0123456789+-.e"

/-- The text of a finite number. -/
structure NumberText where
  text : JsString
  nonempty : text ≠ []
  units : ∀ u ∈ text, isNumberUnit u = true
deriving DecidableEq

/-- A text that can follow a number. -/
def Delimited (r : JsString) : Prop := ∀ u ∈ r.head?, isNumberUnit u = false

theorem takeWhile_of_delimited {r : JsString} (h : Delimited r) : r.takeWhile isNumberUnit = [] := by
  cases r with
  | nil => rfl
  | cons u r => exact List.takeWhile_cons_of_neg (by simp [h u rfl])

theorem number_append_inj {m n : NumberText} {r s : JsString} (h : m.text ++ r = n.text ++ s) (hr : Delimited r)
    (hs : Delimited s) : m = n ∧ r = s := by
  have htext : m.text = n.text := by
    have htake := congrArg (List.takeWhile isNumberUnit) h
    rw [List.takeWhile_append_of_pos m.units, List.takeWhile_append_of_pos n.units, takeWhile_of_delimited hr,
      takeWhile_of_delimited hs, List.append_nil, List.append_nil] at htake
    exact htake
  refine ⟨?_, List.append_cancel_left (htext ▸ h)⟩
  cases m
  cases n
  cases htext
  rfl

/-- The leaves of a document. -/
inductive Scalar : Type
  | null
  | boolean (value : Bool)
  | number (value : NumberText)
  | string (value : JsString)
deriving DecidableEq

/-- The text of a leaf. -/
def Scalar.text : Scalar → JsString
  | .null => ascii "null"
  | .boolean true => ascii "true"
  | .boolean false => ascii "false"
  | .number value => value.text
  | .string value => quote value

/-- JSON documents. -/
abbrev Document : Type := JsonTree Scalar

def memberText (member : JsString × JsString) : JsString := quote member.1 ++ 0x3A :: member.2

/-- The text of a document. -/
def Document.text : Document → JsString :=
  JsonTree.fold Scalar.text (fun items => 0x5B :: (List.intercalate [0x2C] items ++ [0x5D]))
    fun members => 0x7B :: (List.intercalate [0x2C] (members.map memberText) ++ [0x7D])

theorem text_array (items : List Document) :
    Document.text (.array items) = 0x5B :: (List.intercalate [0x2C] (items.map Document.text) ++ [0x5D]) :=
  JsonTree.fold_array _ _ _ _

theorem text_object (members : List (JsString × Document)) :
    Document.text (.object members) =
      0x7B :: (List.intercalate [0x2C] (members.map fun member => quote member.1 ++ 0x3A :: Document.text member.2) ++
        [0x7D]) := by
  rw [Document.text, JsonTree.fold_object, List.map_map]
  rfl

/-! ## Reading a document -/

section Separated

variable {A : Type} {text : A → JsString} {close : CodeUnit} {l l' : List A} {r s : JsString}

/-- The texts after the first one, each with its comma. -/
def afterFirst (text : A → JsString) (l : List A) : JsString := l.flatMap fun a => 0x2C :: text a

theorem intercalate_cons (a : A) (l : List A) :
    List.intercalate [0x2C] ((a :: l).map text) = text a ++ afterFirst text l := by
  induction l generalizing a with
  | nil => simp [afterFirst]
  | cons b l ih =>
    have hrest := ih b
    rw [List.map_cons] at hrest
    rw [List.map_cons, List.map_cons, List.intercalate_cons_cons, hrest, afterFirst, afterFirst, List.flatMap_cons]
    simp

/-- A comma or the closing code unit follows each text. -/
theorem delimited_afterFirst (hclose : isNumberUnit close = false) : Delimited (afterFirst text l ++ close :: r) := by
  have hcomma : isNumberUnit 0x2C = false := by decide
  intro u hu
  cases l with
  | nil =>
    obtain rfl : close = u := Option.some.inj hu
    exact hclose
  | cons a l =>
    obtain rfl : 0x2C = u := Option.some.inj hu
    exact hcomma

/-- Every listed thing is read in one way. -/
def ReadsOnce (text : A → JsString) (a : A) : Prop :=
  ∀ b r s, text a ++ r = text b ++ s → Delimited r → Delimited s → a = b ∧ r = s

theorem afterFirst_append_inj (hclose : isNumberUnit close = false) (hcomma : close ≠ 0x2C)
    (hread : ∀ a ∈ l, ReadsOnce text a) (h : afterFirst text l ++ close :: r = afterFirst text l' ++ close :: s) :
    l = l' ∧ r = s := by
  induction l generalizing l' with
  | nil =>
    cases l' with
    | nil => exact ⟨rfl, (List.cons.inj h).2⟩
    | cons b l' => exact absurd (List.cons.inj h).1 hcomma
  | cons a l ih =>
    obtain ⟨hfirst, hlater⟩ := List.forall_mem_cons.mp hread
    cases l' with
    | nil => exact absurd (List.cons.inj h).1.symm hcomma
    | cons b l' =>
      simp only [afterFirst, List.flatMap_cons, List.cons_append, List.append_assoc, List.cons.injEq, true_and] at h
      obtain ⟨rfl, hrest⟩ := hfirst b _ _ h (delimited_afterFirst hclose) (delimited_afterFirst hclose)
      obtain ⟨rfl, hend⟩ := ih hlater hrest
      exact ⟨rfl, hend⟩

/-- A list between brackets is read in one way, when none of its texts begins with the closing
one. -/
theorem separated_append_inj (hclose : isNumberUnit close = false) (hcomma : close ≠ 0x2C)
    (hstart : ∀ a r s, text a ++ r ≠ close :: s) (hread : ∀ a ∈ l, ReadsOnce text a)
    (h : List.intercalate [0x2C] (l.map text) ++ close :: r = List.intercalate [0x2C] (l'.map text) ++ close :: s) :
    l = l' ∧ r = s := by
  cases l with
  | nil =>
    cases l' with
    | nil => exact ⟨rfl, (List.cons.inj h).2⟩
    | cons b l' =>
      rw [intercalate_cons, List.append_assoc] at h
      exact absurd h.symm (hstart b _ _)
  | cons a l =>
    obtain ⟨hfirst, hlater⟩ := List.forall_mem_cons.mp hread
    rw [intercalate_cons, List.append_assoc] at h
    cases l' with
    | nil => exact absurd h (hstart a _ _)
    | cons b l' =>
      rw [intercalate_cons, List.append_assoc] at h
      obtain ⟨rfl, hrest⟩ := hfirst b _ _ h (delimited_afterFirst hclose) (delimited_afterFirst hclose)
      obtain ⟨rfl, hend⟩ := afterFirst_append_inj hclose hcomma hlater hrest
      exact ⟨rfl, hend⟩

end Separated

/-- What a document begins with: a letter or a quote for most leaves, a code unit of a number, or a
bracket. -/
inductive Opening : Document → CodeUnit → Prop
  | null : Opening (.leaf .null) 0x6E
  | true : Opening (.leaf (.boolean true)) 0x74
  | false : Opening (.leaf (.boolean false)) 0x66
  | number (value : NumberText) (u : CodeUnit) : isNumberUnit u = true → Opening (.leaf (.number value)) u
  | string (value : JsString) : Opening (.leaf (.string value)) 0x22
  | array (items : List Document) : Opening (.array items) 0x5B
  | object (members : List (JsString × Document)) : Opening (.object members) 0x7B

theorem opening_text (document : Document) : ∃ u rest, Opening document u ∧ document.text = u :: rest := by
  cases document with
  | leaf value =>
    cases value with
    | null => exact ⟨_, _, .null, rfl⟩
    | boolean value =>
      cases value with
      | true => exact ⟨_, _, .true, rfl⟩
      | false => exact ⟨_, _, .false, rfl⟩
    | number value =>
      obtain ⟨u, rest, hrest⟩ := List.exists_cons_of_ne_nil value.nonempty
      have hu : isNumberUnit u = true := value.units u (hrest ▸ List.mem_cons_self)
      exact ⟨u, rest, .number value u hu, hrest⟩
    | string value => exact ⟨_, _, .string value, rfl⟩
  | array items => exact ⟨_, _, .array items, text_array items⟩
  | object members => exact ⟨_, _, .object members, text_object members⟩

theorem text_append_ne_close (document : Document) (r s : JsString) : document.text ++ r ≠ 0x5D :: s := by
  obtain ⟨u, rest, hopening, htext⟩ := opening_text document
  rw [htext]
  intro h
  obtain rfl : u = 0x5D := (List.cons.inj h).1
  cases hopening with
  | number value u hu => exact absurd hu (by decide)

theorem opening_of_append_eq {document document' : Document} {r s : JsString}
    (h : document.text ++ r = document'.text ++ s) : ∃ u, Opening document u ∧ Opening document' u := by
  obtain ⟨u, rest, hopening, htext⟩ := opening_text document
  obtain ⟨u', rest', hopening', htext'⟩ := opening_text document'
  rw [htext, htext'] at h
  obtain rfl : u = u' := (List.cons.inj h).1
  exact ⟨u, hopening, hopening'⟩

theorem leaf_readsOnce (value : Scalar) : ReadsOnce Document.text (.leaf value) := by
  intro document r s h hr hs
  -- both texts begin with the same code unit, which tells the kind of the document
  obtain ⟨u, hopening, hopening'⟩ := opening_of_append_eq h
  cases hopening with
  | null =>
    cases hopening' with
    | null => exact ⟨rfl, List.append_cancel_left h⟩
    | number value u hu => exact absurd hu (by decide)
  | true =>
    cases hopening' with
    | true => exact ⟨rfl, List.append_cancel_left h⟩
    | number value u hu => exact absurd hu (by decide)
  | false =>
    cases hopening' with
    | false => exact ⟨rfl, List.append_cancel_left h⟩
    | number value u hu => exact absurd hu (by decide)
  | number value u hu =>
    cases hopening' with
    | number value' u hu' =>
      obtain ⟨rfl, hrest⟩ := number_append_inj h hr hs
      exact ⟨rfl, hrest⟩
    | _ => exact absurd hu (by decide)
  | string value =>
    cases hopening' with
    | string value' =>
      obtain ⟨rfl, hrest⟩ := quote_append_inj h
      exact ⟨rfl, hrest⟩
    | number value u hu => exact absurd hu (by decide)

theorem member_readsOnce {member : JsString × Document} (h : ReadsOnce Document.text member.2) :
    ReadsOnce (fun member : JsString × Document => quote member.1 ++ 0x3A :: member.2.text) member := by
  rintro ⟨key, value⟩ r s heq hr hs
  obtain ⟨key', value'⟩ := member
  simp only [List.append_assoc, List.cons_append] at heq
  obtain ⟨rfl, hvalues⟩ := quote_append_inj heq
  obtain ⟨rfl, hrest⟩ := h value r s (List.cons.inj hvalues).2 hr hs
  exact ⟨rfl, hrest⟩

/-- **A document is read in one way.** -/
theorem readsOnce (document : Document) : ReadsOnce Document.text document := by
  induction document using JsonTree.treeInduction with
  | leaf value => exact leaf_readsOnce value
  | array items ih =>
    intro document r s h hr hs
    obtain ⟨u, hopening, hopening'⟩ := opening_of_append_eq h
    cases hopening
    cases hopening' with
    | number value u hu => exact absurd hu (by decide)
    | array items' =>
      simp only [text_array, List.cons_append, List.append_assoc, List.nil_append, List.cons.injEq, true_and] at h
      obtain ⟨rfl, hrest⟩ := separated_append_inj (by decide) (by decide) text_append_ne_close ih h
      exact ⟨rfl, hrest⟩
  | object members ih =>
    intro document r s h hr hs
    obtain ⟨u, hopening, hopening'⟩ := opening_of_append_eq h
    cases hopening
    cases hopening' with
    | number value u hu => exact absurd hu (by decide)
    | object members' =>
      simp only [text_object, List.cons_append, List.append_assoc, List.nil_append, List.cons.injEq, true_and] at h
      -- a member begins with the quote of its key
      have hstart : ∀ (member : JsString × Document) r s,
          (quote member.1 ++ 0x3A :: member.2.text) ++ r ≠ 0x7D :: s := by
        intro member r s heq
        exact absurd (List.cons.inj heq).1 (by decide)
      obtain ⟨rfl, hrest⟩ := separated_append_inj (by decide) (by decide) hstart
        (fun member hmember => member_readsOnce (ih member hmember)) h
      exact ⟨rfl, hrest⟩

/-- **Different documents have different texts.** -/
theorem text_injective : Function.Injective Document.text := by
  intro document document' h
  have hnil : Delimited [] := by
    intro u hu
    cases hu
  exact (readsOnce document document' [] [] (by rw [h]) hnil hnil).1

end Serialization
