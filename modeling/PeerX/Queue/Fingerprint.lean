import PeerX.Foundations.JsonText
import Mathlib.Data.List.Sort
import Mathlib.Data.Int.Notation
import Mathlib.Algebra.Order.BigOperators.Group.List
import Mathlib.Algebra.Order.Group.Nat

/-!
# Queue: fingerprints of messages

The fingerprint of a message is the hash of the JSON text of its normalized data. The normalization
copies every object with its keys in their order. But a date is an object without keys of its own,
so that it is copied as an empty object; and a member under the key `__proto__` sets the prototype
of the copy, which has no such key then.

## Main results

* `normalizeData_eq_iff`: for plain data, the normalization forgets the order of the keys and
  nothing else
* `normalized_again`: normalized data stays as it is
* `weight_normalizeData_lt`: otherwise it loses something
* `faithful_iff_plain`: the payloads that the fingerprint tells from all plain ones
-/

namespace Queue

open Serialization

/-! ## Data -/

/-- A date: the time value in milliseconds, or none for an invalid date. -/
structure JsDate where
  time : Option ℤ
  bounded : ∀ t ∈ time, -8640000000000000 ≤ t ∧ t ≤ 8640000000000000
deriving DecidableEq

/-- The last decimal digits of a number. -/
def digits : ℕ → ℕ → JsString
  | 0, _ => []
  | width + 1, n => digits width (n / 10) ++ [Fin.ofNat _ (0x30 + n % 10)]

/-- The year, the month and the day of a day since the start of 1970, in the Gregorian calendar. -/
def civilFromDays (days : ℤ) : ℤ × ℕ × ℕ :=
  -- counted from the first of March of the year 0, in eras of 400 years
  let shifted := days + 719468
  let era := shifted / 146097
  let dayOfEra := (shifted % 146097).toNat
  let yearOfEra := (dayOfEra - dayOfEra / 1460 + dayOfEra / 36524 - dayOfEra / 146096) / 365
  let dayOfYear := dayOfEra - (365 * yearOfEra + yearOfEra / 4 - yearOfEra / 100)
  let monthFromMarch := (5 * dayOfYear + 2) / 153
  let day := dayOfYear - (153 * monthFromMarch + 2) / 5 + 1
  let month := if monthFromMarch < 10 then monthFromMarch + 3 else monthFromMarch - 9
  (yearOfEra + era * 400 + if month ≤ 2 then 1 else 0, month, day)

def toISOString (time : ℤ) : JsString :=
  let (year, month, day) := civilFromDays (time / 86400000)
  let ms := (time % 86400000).toNat
  let yearText :=
    if 0 ≤ year ∧ year ≤ 9999 then digits 4 year.toNat
    else ascii (if year < 0 then "-" else "+") ++ digits 6 year.natAbs
  yearText ++ ascii "-" ++ digits 2 month ++ ascii "-" ++ digits 2 day ++ ascii "T" ++
    digits 2 (ms / 3600000) ++
    ascii ":" ++ digits 2 (ms / 60000 % 60) ++ ascii ":" ++
      digits 2 (ms / 1000 % 60) ++ ascii "." ++
    digits 3 (ms % 1000) ++ ascii "Z"

/-- The leaves of the data. -/
inductive DataLeaf : Type
  | scalar (value : Scalar)
  | date (value : JsDate)
deriving DecidableEq

/-- The data of a message. -/
abbrev Value : Type := JsonTree DataLeaf

/-- A payload: data whose objects have distinct keys. -/
structure Payload where
  value : Value
  distinctKeys : value.DistinctKeys

/-- The `toJSON` of a date: an invalid one is null. -/
def DataLeaf.toJSON : DataLeaf → Scalar
  | .scalar value => value
  | .date value =>
    match value.time with
    | none => .null
    | some time => .string (toISOString time)

/-- The document that `JSON.stringify` writes. -/
def toDocument (value : Value) : Document := value.map DataLeaf.toJSON

def stringify (value : Value) : JsString := (toDocument value).text

/-! ## Normalization -/

section Members

variable {β : Type}

/-- The number of a key that is an array index. -/
def arrayIndex (key : JsString) : Option ℕ :=
  let isDigit (u : CodeUnit) : Bool := 0x30 ≤ u && u ≤ 0x39
  let number := key.foldl (fun n u => 10 * n + (u.val - 0x30)) 0
  if key ≠ [] ∧ key.all isDigit ∧ (key.head? = some 0x30 → key = [0x30]) ∧
    number < 4294967295 then some number else none

/-- Array indices come first among the keys of an object, in their order. -/
def comesBefore (key old : JsString) : Bool :=
  match arrayIndex key, arrayIndex old with
  | some i, some j => i < j
  | some _, none => true
  | none, _ => false

/-- An own property of an object is set. -/
def setOwn (member : JsString × β) : List (JsString × β) → List (JsString × β)
  | [] => [member]
  | old :: members =>
    if old.1 = member.1 then member :: members
    else if comesBefore member.1 old.1 then member :: old :: members
    else old :: setOwn member members

/-- The assignment `object[key] = value`: under `__proto__` it sets the prototype, and no property
of the object. -/
def assign (members : List (JsString × β)) (member : JsString × β) : List (JsString × β) :=
  if member.1 = ascii "__proto__" then members else setOwn member members

/-- The members in the order of their keys, by code units. -/
def sortByKey (members : List (JsString × β)) : List (JsString × β) :=
  members.insertionSort fun a b => a.1 ≤ b.1

/-- The object that the sorted members are copied to. -/
def copySorted (members : List (JsString × β)) : List (JsString × β) :=
  (sortByKey members).foldl assign []

end Members

/-- `normalizeData`. A date has no keys. -/
def normalizeData : Value → Document :=
  JsonTree.fold
    (fun
      | .scalar value => .leaf value
      | .date _ => .object [])
    .array fun members => .object (copySorted members)

/-- `generateFingerprint`, with the hash function. -/
def generateFingerprint {δ : Type} (sha256 : JsString → δ) (data : Value) : δ :=
  sha256 (normalizeData data).text

/-! ## The claim on two payloads -/

/-- Two JSON texts are the same up to the order of keys. -/
def SameUpToKeyOrder (first second : JsString) : Prop :=
  ∃ document document' : Document, document.text = first ∧ document'.text = second ∧
    document.Reordered document'

/-- The fingerprint tells two payloads apart exactly when their texts differ in more than the
order of keys. -/
def Faithful {δ : Type} (sha256 : JsString → δ) (first second : Payload) : Prop :=
  generateFingerprint sha256 first.value = generateFingerprint sha256 second.value ↔
    SameUpToKeyOrder (stringify first.value) (stringify second.value)

/-- There is no date and no key `__proto__`, at any depth. -/
def Plain (value : Value) : Prop :=
  JsonTree.fold
    (fun
      | .scalar _ => True
      | .date _ => False)
    (fun items => ∀ item ∈ items, item)
    (fun members => ∀ member ∈ members, member.1 ≠ ascii "__proto__" ∧ member.2) value

example : toISOString 951782400000 = ascii "2000-02-29T00:00:00.000Z" := by decide

example : toISOString (-62198755200001) = ascii "-000002-12-31T23:59:59.999Z" := by decide

/-! ## The members of a copy -/

section Copies

variable {β : Type} {member : JsString × β} {members members' : List (JsString × β)}

/-- The keys that a copy can have. -/
def isOwnKey (member : JsString × β) : Bool := member.1 ≠ ascii "__proto__"

theorem perm_setOwn (h : member.1 ∉ members.map Prod.fst) :
    (setOwn member members).Perm (member :: members) := by
  induction members with
  | nil => exact .refl _
  | cons old members ih =>
    rw [List.map_cons, List.mem_cons, not_or] at h
    have hne : ¬ old.1 = member.1 := fun heq => h.1 heq.symm
    rw [setOwn, if_neg hne]
    split
    · exact .refl _
    · exact ((ih h.2).cons old).trans (.swap member old members)

theorem perm_foldl_assign {copied : List (JsString × β)} (hnodup : (members.map Prod.fst).Nodup)
    (hnew : ∀ member ∈ members, member.1 ∉ copied.map Prod.fst) :
    (members.foldl assign copied).Perm (copied ++ members.filter isOwnKey) := by
  induction members generalizing copied with
  | nil => simp
  | cons member members ih =>
    rw [List.map_cons, List.nodup_cons] at hnodup
    obtain ⟨hmember, hmembers⟩ := List.forall_mem_cons.mp hnew
    rw [List.foldl_cons]
    by_cases hproto : member.1 = ascii "__proto__"
    · -- an assignment to this key sets the prototype and no member
      rw [assign, if_pos hproto, List.filter_cons_of_neg (by simp [isOwnKey, hproto])]
      exact ih hnodup.2 hmembers
    · rw [assign, if_neg hproto, List.filter_cons_of_pos (by simp [isOwnKey, hproto])]
      have hset := perm_setOwn hmember
      refine (ih hnodup.2 fun other hother hmem => ?_).trans ?_
      · rcases List.mem_cons.mp ((hset.map Prod.fst).mem_iff.mp hmem) with heq | hmem
        · exact hnodup.1 (heq ▸ List.mem_map_of_mem hother)
        · exact hmembers other hother hmem
      · exact (hset.append_right _).trans List.perm_middle.symm

theorem sortByKey_perm (members : List (JsString × β)) : (sortByKey members).Perm members :=
  List.perm_insertionSort _ members

/-- A copy has the members of the object, without the key `__proto__`. -/
theorem perm_copySorted (hnodup : (members.map Prod.fst).Nodup) :
    (copySorted members).Perm (members.filter isOwnKey) := by
  have hsort := sortByKey_perm members
  have hsorted : ((sortByKey members).map Prod.fst).Nodup :=
    (hsort.map Prod.fst).nodup_iff.mpr hnodup
  have hcopy : (copySorted members).Perm ([] ++ (sortByKey members).filter isOwnKey) :=
    perm_foldl_assign hsorted fun _ _ hmem => List.not_mem_nil hmem
  exact hcopy.trans (hsort.filter isOwnKey)

theorem pairwise_sortByKey (members : List (JsString × β)) :
    (sortByKey members).Pairwise fun a b => a.1 ≤ b.1 := by
  have : Std.Total fun a b : JsString × β => a.1 ≤ b.1 := ⟨fun a b => le_total a.1 b.1⟩
  have : IsTrans (JsString × β) fun a b => a.1 ≤ b.1 := ⟨fun a b c => le_trans⟩
  exact List.pairwise_insertionSort _ members

/-- Sorted lists of the same members are the same, when the keys are distinct. -/
theorem eq_of_sorted (hnodup : (members.map Prod.fst).Nodup) (hperm : members.Perm members')
    (hsorted : members.Pairwise fun a b => a.1 ≤ b.1)
    (hsorted' : members'.Pairwise fun a b => a.1 ≤ b.1) :
    members = members' := by
  refine hperm.eq_of_pairwise (fun a b ha hb hab hba => ?_) hsorted hsorted'
  exact List.inj_on_of_nodup_map hnodup ha (hperm.mem_iff.mpr hb) (le_antisymm hab hba)

/-- A copy does not depend on the order of the members. -/
theorem copySorted_eq_of_perm (hnodup : (members.map Prod.fst).Nodup)
    (hperm : members.Perm members') :
    copySorted members = copySorted members' := by
  have hsort : sortByKey members = sortByKey members' := by
    refine eq_of_sorted ?_ ?_ (pairwise_sortByKey _) (pairwise_sortByKey _)
    · exact ((sortByKey_perm members).map Prod.fst).nodup_iff.mpr hnodup
    · exact (sortByKey_perm members).trans (hperm.trans (sortByKey_perm members').symm)
  rw [copySorted, copySorted, hsort]

/-- The members of a copy whose values have been changed. -/
theorem perm_copySorted_map {γ : Type} (hnodup : (members.map Prod.fst).Nodup) (f : β → γ) :
    (copySorted (members.map fun member => (member.1, f member.2))).Perm
      ((members.filter isOwnKey).map fun member => (member.1, f member.2)) := by
  have hkeys : ((members.map fun member => (member.1, f member.2)).map Prod.fst).Nodup := by
    rw [List.map_map]
    exact hnodup
  have hcopy := perm_copySorted hkeys
  rw [List.filter_map] at hcopy
  exact hcopy

theorem foldl_assign_filter (members copied : List (JsString × β)) :
    (members.filter isOwnKey).foldl assign copied = members.foldl assign copied := by
  induction members generalizing copied with
  | nil => rfl
  | cons member members ih =>
    by_cases hproto : member.1 = ascii "__proto__"
    · rw [List.filter_cons_of_neg (by simp [isOwnKey, hproto]), ih, List.foldl_cons, assign,
        if_pos hproto]
    · rw [List.filter_cons_of_pos (by simp [isOwnKey, hproto]), List.foldl_cons,
        List.foldl_cons, ih]

/-- The key `__proto__` makes no difference to a copy. -/
theorem copySorted_filter (hnodup : (members.map Prod.fst).Nodup) :
    copySorted (members.filter isOwnKey) = copySorted members := by
  have hsort : sortByKey (members.filter isOwnKey) = (sortByKey members).filter isOwnKey := by
    refine eq_of_sorted ?_ ?_ (pairwise_sortByKey _) ((pairwise_sortByKey members).filter _)
    · refine ((sortByKey_perm _).map Prod.fst).nodup_iff.mpr ?_
      exact hnodup.sublist (List.filter_sublist.map Prod.fst)
    · exact (sortByKey_perm _).trans ((sortByKey_perm members).filter isOwnKey).symm
  rw [copySorted, hsort, foldl_assign_filter, copySorted]

end Copies

/-! ## Plain data -/

variable {value value' : Value}

@[simp] theorem normalizeData_scalar (s : Scalar) :
    normalizeData (.leaf (.scalar s)) = .leaf s := rfl

@[simp] theorem normalizeData_date (d : JsDate) :
    normalizeData (.leaf (.date d)) = .object [] := rfl

@[simp] theorem normalizeData_array (items : List Value) :
    normalizeData (.array items) = .array (items.map normalizeData) := JsonTree.fold_array _ _ _ _

@[simp] theorem normalizeData_object (members : List (JsString × Value)) :
    normalizeData (.object members) =
      .object (copySorted (members.map fun member => (member.1, normalizeData member.2))) :=
  JsonTree.fold_object _ _ _ _

@[simp] theorem plain_array {items : List Value} : Plain (.array items) ↔
    ∀ item ∈ items, Plain item := by
  rw [Plain, JsonTree.fold_array]
  exact List.forall_mem_map

@[simp] theorem plain_object {members : List (JsString × Value)} :
    Plain (.object members) ↔ ∀ member ∈ members, member.1 ≠ ascii "__proto__" ∧
    Plain member.2 := by
  rw [Plain, JsonTree.fold_object]
  exact List.forall_mem_map

/-- A document as data. -/
def ofDocument (document : Document) : Value := document.map DataLeaf.scalar

theorem toDocument_ofDocument (document : Document) :
    toDocument (ofDocument document) = document := by
  induction document using JsonTree.treeInduction with
  | leaf s => rfl
  | array items ih =>
    simp only [toDocument, ofDocument, JsonTree.map_array, List.map_map] at ih ⊢
    exact congrArg JsonTree.array (List.map_congr_left ih |>.trans (List.map_id _))
  | object members ih =>
    simp only [toDocument, ofDocument, JsonTree.map_object, List.map_map] at ih ⊢
    refine congrArg JsonTree.object (List.map_congr_left (fun member hmember => ?_) |>.trans
      (List.map_id _))
    exact Prod.ext rfl (ih member hmember)

theorem ofDocument_toDocument (hplain : Plain value) : ofDocument (toDocument value) = value := by
  induction value using JsonTree.treeInduction with
  | leaf leaf =>
    cases leaf with
    | scalar s => rfl
    | date d => exact hplain.elim
  | array items ih =>
    rw [plain_array] at hplain
    simp only [toDocument, ofDocument, JsonTree.map_array, List.map_map] at ih ⊢
    exact congrArg JsonTree.array
      (List.map_congr_left (fun item hitem => ih item hitem (hplain item hitem)) |>.trans
        (List.map_id _))
  | object members ih =>
    rw [plain_object] at hplain
    simp only [toDocument, ofDocument, JsonTree.map_object, List.map_map] at ih ⊢
    refine congrArg JsonTree.object (List.map_congr_left (fun member hmember => ?_) |>.trans
      (List.map_id _))
    exact Prod.ext rfl (ih member hmember (hplain member hmember).2)

/-- Nothing of plain data is lost: normalizing it changes the order of keys. -/
theorem reordered_normalizeData (hplain : Plain value) (hkeys : value.DistinctKeys) :
    (toDocument value).Reordered (normalizeData value) := by
  induction value using JsonTree.treeInduction with
  | leaf leaf =>
    cases leaf with
    | scalar s => exact .refl _
    | date d => exact hplain.elim
  | array items ih =>
    rw [plain_array] at hplain
    rw [JsonTree.distinctKeys_array] at hkeys
    rw [toDocument, JsonTree.map_array, normalizeData_array]
    exact .array items fun item hitem => ih item hitem (hplain item hitem) (hkeys item hitem)
  | object members ih =>
    rw [plain_object] at hplain
    rw [JsonTree.distinctKeys_object] at hkeys
    rw [toDocument, JsonTree.map_object, normalizeData_object]
    refine .trans (.object members fun member hmember =>
      ih member hmember (hplain member hmember).2 (hkeys.2 member hmember)) ?_
    -- first the values are normalized in place, then the members are sorted, none of them lost
    have hcopy := perm_copySorted_map hkeys.1 normalizeData
    rw [List.filter_eq_self.mpr] at hcopy
    · exact JsonTree.reordered_of_perm hcopy.symm
    · intro member hmember
      exact decide_eq_true (hplain member hmember).1

/-- The order of keys makes no difference. -/
theorem normalizeData_eq_of_reordered (h : value.Reordered value') (hkeys : value.DistinctKeys) :
    normalizeData value = normalizeData value' := by
  induction h with
  | refl value => rfl
  | trans h _ ih ih' => exact (ih hkeys).trans (ih' (JsonTree.distinctKeys_of_reordered h hkeys))
  | swap before after a b =>
    rw [JsonTree.distinctKeys_object] at hkeys
    rw [normalizeData_object, normalizeData_object]
    refine congrArg JsonTree.object (copySorted_eq_of_perm ?_ ?_)
    · rw [List.map_map]
      exact hkeys.1
    · exact ((List.Perm.swap b a after).append_left before).map _
  | item before after _ ih =>
    rw [JsonTree.distinctKeys_array, List.forall_mem_append, List.forall_mem_cons] at hkeys
    simp [ih hkeys.2.1]
  | member before after key _ ih =>
    rw [JsonTree.distinctKeys_object, List.forall_mem_append, List.forall_mem_cons] at hkeys
    simp [ih hkeys.2.2.1]

/-- **For plain data the normalization forgets the order of keys, and nothing else.** -/
theorem normalizeData_eq_iff (hplain : Plain value) (hplain' : Plain value')
    (hkeys : value.DistinctKeys) (hkeys' : value'.DistinctKeys) :
    normalizeData value = normalizeData value' ↔
      (toDocument value).Reordered (toDocument value') := by
  constructor
  · intro h
    exact .trans (reordered_normalizeData hplain hkeys)
      (h ▸ (reordered_normalizeData hplain' hkeys').symm)
  · intro h
    have hvalues := h.map DataLeaf.scalar
    rw [← ofDocument, ← ofDocument, ofDocument_toDocument hplain,
      ofDocument_toDocument hplain'] at hvalues
    exact normalizeData_eq_of_reordered hvalues hkeys

theorem copySorted_copySorted {β : Type} {members : List (JsString × β)}
    (hnodup : (members.map Prod.fst).Nodup) :
    copySorted (copySorted members) = copySorted members := by
  have hperm := perm_copySorted hnodup
  rw [copySorted_eq_of_perm ((hperm.map Prod.fst).nodup_iff.mpr ?_) hperm, copySorted_filter hnodup]
  exact hnodup.sublist (List.filter_sublist.map Prod.fst)

/-- Normalizing a copy changes nothing. -/
theorem normalizeData_ofDocument (hkeys : value.DistinctKeys) :
    normalizeData (ofDocument (normalizeData value)) = normalizeData value := by
  induction value using JsonTree.treeInduction with
  | leaf leaf => cases leaf <;> rfl
  | array items ih =>
    rw [JsonTree.distinctKeys_array] at hkeys
    rw [normalizeData_array, ofDocument, JsonTree.map_array, normalizeData_array,
      List.map_map, List.map_map]
    exact congrArg JsonTree.array (List.map_congr_left fun item hitem => ih item hitem
      (hkeys item hitem))
  | object members ih =>
    rw [JsonTree.distinctKeys_object] at hkeys
    have hnodup :
        ((members.map fun member => (member.1, normalizeData member.2)).map Prod.fst).Nodup := by
      rw [List.map_map]
      exact hkeys.1
    rw [normalizeData_object, ofDocument, JsonTree.map_object, normalizeData_object, List.map_map]
    refine congrArg JsonTree.object ((congrArg copySorted ?_).trans (copySorted_copySorted hnodup))
    refine (List.map_congr_left fun member hmember => ?_).trans (List.map_id _)
    -- each member of the copy has a value that was normalized
    obtain ⟨original, horiginal, rfl⟩ :=
      List.mem_map.mp ((perm_copySorted_map hkeys.1 normalizeData).subset hmember)
    have hmem := (List.mem_filter.mp horiginal).1
    exact Prod.ext rfl (ih original hmem (hkeys.2 original hmem))

/-- **A payload that has been normalized is normalized to itself**, and has the fingerprint of the
payload. -/
theorem normalized_again {δ : Type} (sha256 : JsString → δ) (payload : Payload) :
    normalizeData (ofDocument (normalizeData payload.value)) = normalizeData payload.value ∧
      generateFingerprint sha256 (ofDocument (normalizeData payload.value)) =
        generateFingerprint sha256 payload.value := by
  have h := normalizeData_ofDocument payload.distinctKeys
  exact ⟨h, congrArg (fun document : Document => sha256 document.text) h⟩

theorem sameUpToKeyOrder_iff :
    SameUpToKeyOrder (stringify value) (stringify value') ↔
      (toDocument value).Reordered (toDocument value') := by
  constructor
  · rintro ⟨document, document', htext, htext', h⟩
    rw [text_injective htext, text_injective htext'] at h
    exact h
  · exact fun h => ⟨_, _, rfl, rfl, h⟩

theorem faithful_iff {δ : Type} {sha256 : JsString → δ} (hsha : Function.Injective sha256)
    {first second : Payload} :
    Faithful sha256 first second ↔ (normalizeData first.value = normalizeData second.value ↔
      (toDocument first.value).Reordered (toDocument second.value)) := by
  have hhash : generateFingerprint sha256 first.value = generateFingerprint sha256 second.value ↔
      normalizeData first.value = normalizeData second.value := (hsha.comp text_injective).eq_iff
  rw [Faithful, hhash, sameUpToKeyOrder_iff]

/-! ## Data that is not plain -/

theorem sum_filter_eq {β : Type} (p : β → Bool) (f : β → ℕ) (l : List β) :
    ((l.filter p).map f).sum = (l.map fun x => if p x then f x else 0).sum := by
  induction l with
  | nil => rfl
  | cons x l ih =>
    by_cases hx : p x = true
    · rw [List.filter_cons_of_pos hx, List.map_cons, List.map_cons, List.sum_cons, List.sum_cons,
        ih, if_pos hx]
    · rw [List.filter_cons_of_neg hx, List.map_cons, List.sum_cons, if_neg hx, ih, Nat.zero_add]

theorem weight_toDocument_object (members : List (JsString × Value)) :
    (toDocument (.object members)).weight =
      (members.map fun member => (toDocument member.2).weight + 1).sum := by
  rw [toDocument, JsonTree.map_object, JsonTree.weight_object, List.map_map]
  rfl

theorem weight_normalizeData_object {members : List (JsString × Value)}
    (hnodup : (members.map Prod.fst).Nodup) :
    (normalizeData (.object members)).weight =
      (members.map fun member => if isOwnKey member then (normalizeData member.2).weight + 1
        else 0).sum := by
  rw [normalizeData_object, JsonTree.weight_object,
    ((perm_copySorted_map hnodup normalizeData).map _).sum_eq,
    List.map_map, ← sum_filter_eq]
  rfl

theorem weight_normalizeData_le (hkeys : value.DistinctKeys) :
    (normalizeData value).weight ≤ (toDocument value).weight := by
  induction value using JsonTree.treeInduction with
  | leaf leaf =>
    cases leaf with
    | scalar s => exact le_rfl
    | date d => exact Nat.zero_le _
  | array items ih =>
    rw [JsonTree.distinctKeys_array] at hkeys
    rw [toDocument, JsonTree.map_array, normalizeData_array, JsonTree.weight_array,
      JsonTree.weight_array,
      List.map_map, List.map_map]
    exact List.sum_le_sum fun item hitem => ih item hitem (hkeys item hitem)
  | object members ih =>
    rw [JsonTree.distinctKeys_object] at hkeys
    rw [weight_normalizeData_object hkeys.1, weight_toDocument_object]
    refine List.sum_le_sum fun member hmember => ?_
    have hle := ih member hmember (hkeys.2 member hmember)
    split <;> omega

/-- **Data that is not plain loses something**: a date its time, or an object a member. -/
theorem weight_normalizeData_lt (hkeys : value.DistinctKeys) (hplain : ¬ Plain value) :
    (normalizeData value).weight < (toDocument value).weight := by
  induction value using JsonTree.treeInduction with
  | leaf leaf =>
    cases leaf with
    | scalar s => exact absurd trivial hplain
    -- a date becomes an object without members
    | date d => exact Nat.one_pos
  | array items ih =>
    rw [JsonTree.distinctKeys_array] at hkeys
    rw [plain_array] at hplain
    obtain ⟨item, hitem, hlost⟩ : ∃ item ∈ items, ¬ Plain item := by simpa using hplain
    rw [toDocument, JsonTree.map_array, normalizeData_array, JsonTree.weight_array,
      JsonTree.weight_array,
      List.map_map, List.map_map]
    refine List.sum_lt_sum _ _ (fun item hitem => weight_normalizeData_le (hkeys item hitem))
      ⟨item, hitem, ?_⟩
    exact ih item hitem (hkeys item hitem) hlost
  | object members ih =>
    rw [JsonTree.distinctKeys_object] at hkeys
    rw [plain_object] at hplain
    -- a member loses its key or some of its value; the others lose nothing or more
    obtain ⟨member, hmember, hlost⟩ : ∃ member ∈ members, member.1 ≠ ascii "__proto__" →
        ¬ Plain member.2 := by
      by_contra hnone
      refine hplain fun member hmember => ?_
      by_contra hmember_plain
      exact hnone ⟨member, hmember, fun hkey hvalue => hmember_plain ⟨hkey, hvalue⟩⟩
    rw [weight_normalizeData_object hkeys.1, weight_toDocument_object]
    refine List.sum_lt_sum _ _ (fun member hmember => ?_) ⟨member, hmember, ?_⟩
    · have hle := weight_normalizeData_le (hkeys.2 member hmember)
      split <;> omega
    · split
      · next hown =>
        have hkey : member.1 ≠ ascii "__proto__" := of_decide_eq_true hown
        exact Nat.succ_lt_succ (ih member hmember (hkeys.2 member hmember) (hlost hkey))
      · exact Nat.succ_pos _

/-- The copy of a member is the copy of a member with another key than `__proto__`. -/
theorem exists_source {members : List (JsString × Value)} (hnodup : (members.map Prod.fst).Nodup)
    {copied : JsString × Document}
    (h : copied ∈ copySorted (members.map fun member => (member.1, normalizeData member.2))) :
    ∃ member ∈ members, member.1 ≠ ascii "__proto__" ∧
    (member.1, normalizeData member.2) = copied := by
  obtain ⟨member, hmember, heq⟩ :=
    List.mem_map.mp ((perm_copySorted_map hnodup normalizeData).mem_iff.mp h)
  obtain ⟨hmem, hown⟩ := List.mem_filter.mp hmember
  exact ⟨member, hmem, of_decide_eq_true hown, heq⟩

theorem distinctKeys_normalizeData (hkeys : value.DistinctKeys) :
    (normalizeData value).DistinctKeys := by
  induction value using JsonTree.treeInduction with
  | leaf leaf =>
    cases leaf with
    | scalar s => trivial
    | date d => simp
  | array items ih =>
    rw [JsonTree.distinctKeys_array] at hkeys
    rw [normalizeData_array, JsonTree.distinctKeys_array, List.forall_mem_map]
    exact fun item hitem => ih item hitem (hkeys item hitem)
  | object members ih =>
    rw [JsonTree.distinctKeys_object] at hkeys
    rw [normalizeData_object, JsonTree.distinctKeys_object]
    constructor
    · rw [((perm_copySorted_map hkeys.1 normalizeData).map Prod.fst).nodup_iff, List.map_map]
      exact hkeys.1.sublist (List.filter_sublist.map Prod.fst)
    · intro copied hcopied
      obtain ⟨member, hmember, -, rfl⟩ := exists_source hkeys.1 hcopied
      exact ih member hmember (hkeys.2 member hmember)

theorem plain_ofDocument_normalizeData (hkeys : value.DistinctKeys) :
    Plain (ofDocument (normalizeData value)) := by
  induction value using JsonTree.treeInduction with
  | leaf leaf =>
    cases leaf with
    | scalar s => trivial
    | date d => simp [ofDocument]
  | array items ih =>
    rw [JsonTree.distinctKeys_array] at hkeys
    rw [normalizeData_array, ofDocument, JsonTree.map_array, plain_array, List.forall_mem_map,
      List.forall_mem_map]
    exact fun item hitem => ih item hitem (hkeys item hitem)
  | object members ih =>
    rw [JsonTree.distinctKeys_object] at hkeys
    rw [normalizeData_object, ofDocument, JsonTree.map_object, plain_object, List.forall_mem_map]
    intro copied hcopied
    obtain ⟨member, hmember, hkey, rfl⟩ := exists_source hkeys.1 hcopied
    exact ⟨hkey, ih member hmember (hkeys.2 member hmember)⟩

/-- **The payloads that the fingerprint tells from all plain ones** are the plain ones: a payload
with a date or with the key `__proto__` is taken for a duplicate of a different payload without
them. -/
theorem faithful_iff_plain {δ : Type} (sha256 : JsString → δ) (hsha : Function.Injective sha256)
    (first : Payload) :
    (∀ second : Payload, Plain second.value → Faithful sha256 first second) ↔
      Plain first.value := by
  constructor
  · intro h
    by_contra hplain
    -- the copy of the payload has the same fingerprint, but a different text
    have hdistinct : (ofDocument (normalizeData first.value)).DistinctKeys :=
      JsonTree.distinctKeys_map _ (distinctKeys_normalizeData first.distinctKeys)
    have hfaithful :=
      h ⟨ofDocument (normalizeData first.value), hdistinct⟩
        (plain_ofDocument_normalizeData first.distinctKeys)
    rw [faithful_iff hsha, toDocument_ofDocument] at hfaithful
    have hsame := hfaithful.mp (normalizeData_ofDocument first.distinctKeys).symm
    have hweight := JsonTree.weight_eq_of_reordered hsame
    have hlost := weight_normalizeData_lt first.distinctKeys hplain
    omega
  · intro hplain second hplain'
    exact (faithful_iff hsha).mpr
      (normalizeData_eq_iff hplain hplain' first.distinctKeys second.distinctKeys)

/-- A hash function that spells a text out, except for the empty object, whose digest is that of
SHA-256. -/
def digestOf (text : JsString) : JsString :=
  if text = ascii "{}" then ascii "44136fa355b3678a1146ad16f7e8649e94fb4fc21fe77e8310c060f61caaff8a"
    else 0x2E :: text

theorem digestOf_injective : Function.Injective digestOf := by
  have hhead : ∀ text, ascii "44136fa355b3678a1146ad16f7e8649e94fb4fc21fe77e8310c060f61caaff8a" ≠
      0x2E :: text :=
    fun text h => absurd (List.cons.inj h).1 (by decide)
  intro text text' h
  unfold digestOf at h
  split at h <;> split at h
  · next htext htext' => rw [htext, htext']
  · exact absurd h (hhead _)
  · exact absurd h.symm (hhead _)
  · exact (List.cons.inj h).2

/-- `{}`. -/
def emptyObject : Payload := ⟨.object [], by simp⟩

/-- `{"b": true, "a": {}}`: the keys are out of order. -/
def outOfOrder : Payload where
  value := .object [(ascii "b", .leaf (.scalar (.boolean true))), (ascii "a", .object [])]
  distinctKeys := by simpa using (by decide : ascii "b" ≠ ascii "a")

theorem faithful_iff_plain_outOfOrder : Plain outOfOrder.value ∧
    ∀ second : Payload, Plain second.value → Faithful digestOf outOfOrder second := by
  have hplain : Plain outOfOrder.value := by
    simp only [Plain, outOfOrder, JsonTree.fold_object, List.map_cons, List.map_nil,
      List.forall_mem_cons]
    exact ⟨⟨by decide, by simp⟩, ⟨by decide, by simp⟩, by simp⟩
  exact ⟨hplain, (faithful_iff_plain digestOf digestOf_injective outOfOrder).mpr hplain⟩

/-- **A date is taken for an empty object**, and for any other date. -/
theorem date_taken_for_object :
    ¬ Faithful digestOf ⟨.leaf (.date ⟨some 0, by rintro _ ⟨⟩; decide⟩), trivial⟩ emptyObject := by
  rw [faithful_iff digestOf_injective]
  intro h
  have hweight := JsonTree.weight_eq_of_reordered (h.mp rfl)
  exact absurd hweight (by decide)

end Queue
