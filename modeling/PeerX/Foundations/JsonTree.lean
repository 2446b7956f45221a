import Mathlib.Data.List.Lex
import Mathlib.Order.Fin.Basic
import Mathlib.Algebra.BigOperators.Group.List.Basic
import Mathlib.Algebra.GroupWithZero.Nat

/-!
# Trees of arrays and objects

Data is a tree: a leaf, an array of trees, or an object, whose members are a list of keys with
trees. Functions on the data are folds, and proofs go by one induction, over the items of an array
and the members of an object.

Two trees are the same up to the order of keys when the one can be made from the other by swapping
members that stand next to each other, at any depth.

## Main results

* `JsonTree.treeInduction`: the induction
* `Reordered.array`, `Reordered.object`, `reordered_of_perm`: reordered items, members, and objects
* `weight_eq_of_reordered`: the weight does not depend on the order
-/

namespace Serialization

/-- A code unit of UTF-16. -/
abbrev CodeUnit : Type := Fin 65536

instance neZero_codeUnit : NeZero 65536 := ⟨by decide⟩

/-- A string of JavaScript: its code units. -/
abbrev JsString : Type := List CodeUnit

/-- A string of ASCII characters. -/
def ascii (text : String) : JsString := text.toList.map fun c => Fin.ofNat 65536 c.toNat

/-- Trees of arrays and objects. -/
inductive JsonTree (L : Type) : Type
  | leaf (value : L)
  | array (items : List (JsonTree L))
  | object (members : List (JsString × JsonTree L))

namespace JsonTree

variable {L M β : Type}

section Fold

variable (leaf : L → β) (array : List β → β) (object : List (JsString × β) → β)

mutual

/-- The recursion over a tree. -/
def fold : JsonTree L → β
  | .leaf value => leaf value
  | .array items => array (foldItems items)
  | .object members => object (foldMembers members)

/-- The recursion over the items of an array. -/
def foldItems : List (JsonTree L) → List β
  | [] => []
  | item :: items => fold item :: foldItems items

/-- The recursion over the members of an object. -/
def foldMembers : List (JsString × JsonTree L) → List (JsString × β)
  | [] => []
  | (key, value) :: members => (key, fold value) :: foldMembers members

end

@[simp] theorem fold_leaf (value : L) : fold leaf array object (.leaf value) = leaf value := rfl

@[simp] theorem fold_array (items : List (JsonTree L)) :
    fold leaf array object (.array items) = array (items.map (fold leaf array object)) := by
  have hitems : foldItems leaf array object items = items.map (fold leaf array object) := by
    induction items with
    | nil => rfl
    | cons item items ih => rw [foldItems, ih, List.map_cons]
  rw [fold, hitems]

@[simp] theorem fold_object (members : List (JsString × JsonTree L)) :
    fold leaf array object (.object members) =
      object (members.map fun member => (member.1, fold leaf array object member.2)) := by
  have hmembers : foldMembers leaf array object members =
      members.map fun member => (member.1, fold leaf array object member.2) := by
    induction members with
    | nil => rfl
    | cons member members ih =>
      obtain ⟨key, value⟩ := member
      rw [foldMembers, ih, List.map_cons]
  rw [fold, hmembers]

end Fold

/-- **The induction over a tree.** -/
theorem treeInduction {motive : JsonTree L → Prop} (leaf : ∀ value, motive (.leaf value))
    (array : ∀ items, (∀ item ∈ items, motive item) → motive (.array items))
    (object : ∀ members, (∀ member ∈ members, motive member.2) → motive (.object members)) (tree : JsonTree L) :
    motive tree := by
  refine @JsonTree.rec L motive (fun items => ∀ item ∈ items, motive item)
    (fun members => ∀ member ∈ members, motive member.2) (fun member => motive member.2)
    leaf array object ?_ ?_ ?_ ?_ ?_ tree
  · intro item hitem
    cases hitem
  · intro item items hitem hitems
    exact List.forall_mem_cons.mpr ⟨hitem, hitems⟩
  · intro member hmember
    cases hmember
  · intro member members hmember hmembers
    exact List.forall_mem_cons.mpr ⟨hmember, hmembers⟩
  · intro key value hvalue
    exact hvalue

/-- The tree with each leaf changed. -/
def map (change : L → M) : JsonTree L → JsonTree M := fold (fun value => .leaf (change value)) .array .object

/-- No object has a key twice. -/
def DistinctKeys (tree : JsonTree L) : Prop :=
  fold (fun _ => True) (fun items => ∀ item ∈ items, item)
    (fun members => (members.map Prod.fst).Nodup ∧ ∀ member ∈ members, member.2) tree

/-- The number of leaves and members. -/
def weight (tree : JsonTree L) : ℕ :=
  fold (fun _ => 1) List.sum (fun members => (members.map fun member => member.2 + 1).sum) tree

variable {items items' : List (JsonTree L)} {members members' : List (JsString × JsonTree L)}

@[simp] theorem map_leaf (change : L → M) (value : L) : (leaf value).map change = .leaf (change value) := rfl

@[simp] theorem map_array (change : L → M) (items : List (JsonTree L)) :
    (array items).map change = .array (items.map (map change)) := fold_array _ _ _ _

@[simp] theorem map_object (change : L → M) (members : List (JsString × JsonTree L)) :
    (object members).map change = .object (members.map fun member => (member.1, member.2.map change)) :=
  fold_object _ _ _ _

@[simp] theorem distinctKeys_leaf (value : L) : (leaf value).DistinctKeys := trivial

@[simp] theorem distinctKeys_array : (array items).DistinctKeys ↔ ∀ item ∈ items, item.DistinctKeys := by
  rw [DistinctKeys, fold_array]
  exact List.forall_mem_map

@[simp] theorem distinctKeys_object : (object members).DistinctKeys ↔
    (members.map Prod.fst).Nodup ∧ ∀ member ∈ members, member.2.DistinctKeys := by
  rw [DistinctKeys, fold_object, List.map_map, List.forall_mem_map]
  rfl

@[simp] theorem weight_leaf (value : L) : (leaf value).weight = 1 := rfl

@[simp] theorem weight_array : (array items).weight = (items.map weight).sum := by
  rw [weight, fold_array]
  rfl

@[simp] theorem weight_object : (object members).weight = (members.map fun member => member.2.weight + 1).sum := by
  rw [weight, fold_object, List.map_map]
  rfl

/-- The same up to the order of keys. -/
inductive Reordered : JsonTree L → JsonTree L → Prop
  | refl (tree : JsonTree L) : Reordered tree tree
  | trans {first second third : JsonTree L} : Reordered first second → Reordered second third → Reordered first third
  | swap (before after : List (JsString × JsonTree L)) (a b : JsString × JsonTree L) :
    Reordered (.object (before ++ a :: b :: after)) (.object (before ++ b :: a :: after))
  | item (before after : List (JsonTree L)) {item item' : JsonTree L} :
    Reordered item item' → Reordered (.array (before ++ item :: after)) (.array (before ++ item' :: after))
  | member (before after : List (JsString × JsonTree L)) (key : JsString) {value value' : JsonTree L} :
    Reordered value value' →
      Reordered (.object (before ++ (key, value) :: after)) (.object (before ++ (key, value') :: after))

theorem Reordered.symm {tree tree' : JsonTree L} (h : Reordered tree tree') : Reordered tree' tree := by
  induction h with
  | refl tree => exact .refl tree
  | trans _ _ ih ih' => exact .trans ih' ih
  | swap before after a b => exact .swap before after b a
  | item before after _ ih => exact .item before after ih
  | member before after key _ ih => exact .member before after key ih

theorem Reordered.array {f : β → JsonTree L} {g : β → JsonTree L} (l : List β)
    (h : ∀ x ∈ l, Reordered (f x) (g x)) : Reordered (.array (l.map f)) (.array (l.map g)) := by
  -- the items are reordered from left to right, those on the left are done
  suffices ∀ before, Reordered (.array (before ++ l.map f)) (.array (before ++ l.map g)) from this []
  induction l with
  | nil => exact fun before => .refl _
  | cons x l ih =>
    intro before
    obtain ⟨hx, hl⟩ := List.forall_mem_cons.mp h
    refine .trans (.item before (l.map f) hx) ?_
    have hrest := ih hl (before ++ [g x])
    simpa using hrest

theorem Reordered.object {key : β → JsString} {f g : β → JsonTree L} (l : List β)
    (h : ∀ x ∈ l, Reordered (f x) (g x)) :
    Reordered (.object (l.map fun x => (key x, f x))) (.object (l.map fun x => (key x, g x))) := by
  suffices ∀ before, Reordered (.object (before ++ l.map fun x => (key x, f x)))
      (.object (before ++ l.map fun x => (key x, g x))) from this []
  induction l with
  | nil => exact fun before => .refl _
  | cons x l ih =>
    intro before
    obtain ⟨hx, hl⟩ := List.forall_mem_cons.mp h
    refine .trans (.member before (l.map fun x => (key x, f x)) (key x) hx) ?_
    have hrest := ih hl (before ++ [(key x, g x)])
    simpa using hrest

theorem reordered_of_perm (h : members.Perm members') : Reordered (.object members) (.object members') := by
  suffices ∀ before, Reordered (.object (before ++ members)) (.object (before ++ members')) from this []
  induction h with
  | nil => exact fun before => .refl _
  | cons a _ ih =>
    intro before
    simpa using ih (before ++ [a])
  | swap a b after => exact fun before => .swap before after b a
  | trans _ _ ih ih' => exact fun before => .trans (ih before) (ih' before)

theorem distinctKeys_map {tree : JsonTree L} (change : L → M) (h : tree.DistinctKeys) :
    (tree.map change).DistinctKeys := by
  induction tree using treeInduction with
  | leaf value => trivial
  | array items ih =>
    rw [distinctKeys_array] at h
    rw [map_array, distinctKeys_array, List.forall_mem_map]
    exact fun item hitem => ih item hitem (h item hitem)
  | object members ih =>
    rw [distinctKeys_object] at h
    rw [map_object, distinctKeys_object, List.map_map, List.forall_mem_map]
    exact ⟨h.1, fun member hmember => ih member hmember (h.2 member hmember)⟩

theorem Reordered.map {tree tree' : JsonTree L} (h : Reordered tree tree') (change : L → M) :
    Reordered (tree.map change) (tree'.map change) := by
  induction h with
  | refl tree => exact .refl _
  | trans _ _ ih ih' => exact .trans ih ih'
  | swap before after a b =>
    simp only [map_object, List.map_append, List.map_cons]
    exact .swap _ _ _ _
  | item before after _ ih =>
    simp only [map_array, List.map_append, List.map_cons]
    exact .item _ _ ih
  | member before after key _ ih =>
    simp only [map_object, List.map_append, List.map_cons]
    exact .member _ _ _ ih

/-- **The weight does not depend on the order.** -/
theorem weight_eq_of_reordered {tree tree' : JsonTree L} (h : Reordered tree tree') : tree.weight = tree'.weight := by
  induction h with
  | refl tree => rfl
  | trans _ _ ih ih' => exact ih.trans ih'
  | swap before after a b =>
    simp only [weight_object, List.map_append, List.map_cons, List.sum_append, List.sum_cons]
    omega
  | item before after _ ih => simp [ih]
  | member before after key _ ih => simp [ih]

theorem distinctKeys_of_reordered {tree tree' : JsonTree L} (h : Reordered tree tree') (hkeys : tree.DistinctKeys) :
    tree'.DistinctKeys := by
  induction h with
  | refl tree => exact hkeys
  | trans _ _ ih ih' => exact ih' (ih hkeys)
  | swap before after a b =>
    have hperm : (before ++ a :: b :: after).Perm (before ++ b :: a :: after) :=
      (List.Perm.swap b a after).append_left before
    rw [distinctKeys_object] at hkeys ⊢
    refine ⟨(hperm.map Prod.fst).nodup hkeys.1, fun member hmember => hkeys.2 member (hperm.mem_iff.mpr hmember)⟩
  | item before after _ ih =>
    rw [distinctKeys_array, List.forall_mem_append, List.forall_mem_cons] at hkeys ⊢
    exact ⟨hkeys.1, ih hkeys.2.1, hkeys.2.2⟩
  | member before after key _ ih =>
    rw [distinctKeys_object, List.forall_mem_append, List.forall_mem_cons] at hkeys ⊢
    obtain ⟨hnodup, hbefore, hvalue, hafter⟩ := hkeys
    exact ⟨by simpa using hnodup, hbefore, ih hvalue, hafter⟩

end JsonTree

end Serialization
