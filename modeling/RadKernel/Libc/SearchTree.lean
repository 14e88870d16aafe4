import Mathlib.Data.List.Basic

/-!
# Search trees of the C library

`tsearch`, `tfind`, `tdelete` and `twalk` of `libs/libradc/rad_libc.c`. The root pointer is the
tree it leads to, and a pointer to the key field of a node is the key. Every comparison function
is allowed that orders the keys; keys at different addresses may be equal.
-/

namespace RadKernel.Libc

/-- `rad_tnode_t`. -/
inductive Tree (α : Type) where
  | nil
  | node (key : α) (left right : Tree α)
  deriving DecidableEq, Repr

/-- `VISIT`. -/
inductive Visit where
  | preorder
  | postorder
  | endorder
  | leaf
  deriving DecidableEq, Repr

/-- What `tdelete` returns: null, the root pointer itself, or a key that is left. -/
inductive Deleted (α : Type) where
  | null
  | root
  | key (k : α)
  deriving DecidableEq, Repr

section

variable {α : Type} (compar : α → α → Int)

def tfind (key : α) : Tree α → Option α
  | .nil => none
  | .node k left right =>
    if compar key k = 0 then some k
    else if compar key k < 0 then tfind key left
    else tfind key right

def tsearch (key : α) : Tree α → α × Tree α
  | .nil => (key, .node key .nil .nil)
  | .node k left right =>
    if compar key k = 0 then (k, .node k left right)
    else if compar key k < 0 then
      let (found, left) := tsearch key left
      (found, .node k left right)
    else
      let (found, right) := tsearch key right
      (found, .node k left right)

/-- `tdelete_min` of the tree with this root: the key taken out, and what is left. -/
def tdeleteMin (k : α) : Tree α → Tree α → α × Tree α
  | .nil, right => (k, right)
  | .node k' left' right', right =>
    let (least, left) := tdeleteMin k' left' right'
    (least, .node k left right)

/-- What takes the place of a node with these subtrees. -/
def replacement : Tree α → Tree α → Tree α
  | .nil, right => right
  | left, .nil => left
  | left, .node k left' right' =>
    let (least, right) := tdeleteMin k left' right'
    .node least left right

def tdelete (key : α) : Tree α → Deleted α × Tree α
  | .nil => (.null, .nil)
  | .node k left right =>
    if compar key k < 0 then
      let (result, left) := tdelete key left
      (result, .node k left right)
    else if 0 < compar key k then
      let (result, right) := tdelete key right
      (result, .node k left right)
    else
      match replacement left right with
      | .nil => (.root, .nil)
      | .node k left right => (.key k, .node k left right)

/-- The calls of the action, with the depth. -/
def twalkNode : Tree α → Nat → List (α × Visit × Nat)
  | .nil, _ => []
  | .node k .nil .nil, depth => [(k, .leaf, depth)]
  | .node k left right, depth =>
    (k, .preorder, depth) :: twalkNode left (depth + 1) ++
      (k, .postorder, depth) :: twalkNode right (depth + 1) ++ [(k, .endorder, depth)]

def twalk (root : Tree α) : List (α × Visit × Nat) := twalkNode root 0

inductive Call (α : Type) where
  | tsearch (key : α)
  | tfind (key : α)
  | tdelete (key : α)

def Call.perform (c : Call α) (root : Tree α) : Tree α :=
  match c with
  | .tsearch key => (Libc.tsearch compar key root).2
  | .tfind _ => root
  | .tdelete key => (Libc.tdelete compar key root).2

/-- The tree after the calls, the last of which is the first of the list. -/
def treeAfter (calls : List (Call α)) : Tree α :=
  calls.foldr (Call.perform compar) .nil

/-! ## Sets of keys -/

/-- The comparison function orders the keys. -/
structure TotalOrder : Prop where
  swap : ∀ a b, compar a b < 0 ↔ 0 < compar b a
  trans : ∀ a b c, compar a b ≤ 0 → compar b c ≤ 0 → compar a c ≤ 0

/-- The keys from left to right. -/
def keys : Tree α → List α
  | .nil => []
  | .node k left right => keys left ++ k :: keys right

/-- A binary search tree without equal keys. -/
def Ordered : Tree α → Prop
  | .nil => True
  | .node k left right => Ordered left ∧ Ordered right ∧
      (∀ x ∈ keys left, compar x k < 0) ∧ ∀ x ∈ keys right, compar k x < 0

/-- The key was inserted and not deleted since. The last call comes first. -/
def Inserted (key : α) : List (Call α) → Prop
  | [] => False
  | .tsearch k :: calls => compar key k = 0 ∨ Inserted key calls
  | .tfind _ :: calls => Inserted key calls
  | .tdelete k :: calls => compar key k ≠ 0 ∧ Inserted key calls

/-- The keys that are visited in post-order or at leaves. -/
def inner (visits : List (α × Visit × Nat)) : List α :=
  (visits.filter fun v => v.2.1 = .postorder ∨ v.2.1 = .leaf).map Prod.fst

end

variable {α : Type} {compar : α → α → Int} {key : α} {t : Tree α}

section
variable (h : TotalOrder compar)
include h

theorem TotalOrder.lt (a b c : α) (hab : compar a b ≤ 0)
    (hbc : compar b c ≤ 0) (hlt : compar a b < 0 ∨ compar b c < 0) : compar a c < 0 := by
  have hbca := h.trans b c a hbc
  have hcab := h.trans c a b
  grind [h.swap a b, h.swap b c, h.swap a c, h.swap c a]

theorem ordered_iff : Ordered compar t ↔ (keys t).Pairwise (compar · · < 0) := by
  have hlt := h.lt
  induction t with
  | nil => simp [Ordered, keys]
  | node k left right ihl ihr =>
    simp only [Ordered, keys, List.pairwise_append, List.pairwise_cons, ihl, ihr]
    grind

/-- A search finds what compares equal. -/
theorem tfind_isSome (ht : Ordered compar t) :
    (tfind compar key t).isSome = true ↔ ∃ k ∈ keys t, compar key k = 0 := by
  have hlt := h.lt
  induction t with
  | nil => simp [tfind, keys]
  | node k left right ihl ihr =>
    simp only [tfind, keys, Ordered] at ht ⊢
    grind

/-- A key that is not found is inserted between the smaller and the greater ones. -/
theorem tsearch_cases (ht : Ordered compar t) (key : α) :
    (tsearch compar key t).2 = t ∧ (∃ k ∈ keys t, compar key k = 0) ∨
      ∃ l r, keys t = l ++ r ∧ keys (tsearch compar key t).2 = l ++ key :: r ∧
        (∀ x ∈ l, compar x key < 0) ∧ ∀ x ∈ r, compar key x < 0 := by
  have hlt := h.lt
  induction t with
  | nil => exact .inr ⟨[], [], by simp [keys, tsearch]⟩
  | node k left right ihl ihr =>
    obtain ⟨hl, hr, hlk, hkr⟩ := ht
    rw [tsearch]
    split_ifs with heq hless
    · exact .inl ⟨rfl, k, by simp [keys], heq⟩
    · rcases ihl hl with ⟨hsame, x, hx, hkey⟩ | ⟨l, r, hkeys, hnew, hless, hgreater⟩
      · exact .inl ⟨by simp [hsame], x, by simp [keys, hx], hkey⟩
      · refine .inr ⟨l, r ++ k :: keys right, by simp [keys, hkeys], by simp [keys, hnew], hless, ?_⟩
        grind
    · rcases ihr hr with ⟨hsame, x, hx, hkey⟩ | ⟨l, r, hkeys, hnew, hless, hgreater⟩
      · exact .inl ⟨by simp [hsame], x, by simp [keys, hx], hkey⟩
      · refine .inr ⟨keys left ++ k :: l, r, by simp [keys, hkeys], by simp [keys, hnew], ?_,
          hgreater⟩
        grind [h.swap k key]

end

theorem keys_tdeleteMin (k : α) (left right : Tree α) :
    (tdeleteMin k left right).1 :: keys (tdeleteMin k left right).2 =
      keys left ++ k :: keys right := by
  induction left generalizing k right with
  | nil => simp [tdeleteMin, keys]
  | node k' left' right' ih =>
    rw [tdeleteMin, keys, keys, ← ih k' right']
    rfl

theorem keys_replacement (left right : Tree α) :
    keys (replacement left right) = keys left ++ keys right := by
  unfold replacement
  split
  · rfl
  · simp [keys]
  · next k left' right' _ =>
    rw [keys, keys, keys_tdeleteMin]

theorem keys_tdelete (h : TotalOrder compar) (ht : Ordered compar t) (key : α) :
    keys (tdelete compar key t).2 = (keys t).filter fun k => compar key k ≠ 0 := by
  have hlt := h.lt
  have hkeep : ∀ {l : List α}, (∀ x ∈ l, compar key x ≠ 0) →
      l.filter (fun k => compar key k ≠ 0) = l :=
    fun hl => List.filter_eq_self.2 fun x hx => by simpa using hl x hx
  induction t with
  | nil => rfl
  | node k left right ihl ihr =>
    obtain ⟨hl, hr, hlk, hkr⟩ := ht
    rw [keys, List.filter_append, List.filter_cons]
    by_cases heq : compar key k = 0
    · rw [hkeep (by grind), hkeep (by grind)]
      simp only [tdelete, heq, Int.lt_irrefl, if_false]
      trans keys (replacement left right)
      · cases replacement left right <;> rfl
      · simp [keys_replacement]
    rcases Int.lt_or_gt_of_ne heq with hless | hgreater
    · rw [hkeep (l := keys right) (by grind), ← ihl hl]
      simp [tdelete, hless, heq, keys]
    · rw [hkeep (by grind), ← ihr hr]
      simp [tdelete, hgreater, Int.not_lt.2 (Int.le_of_lt hgreater), heq, keys]

theorem tdelete_absent (hkey : ∀ k ∈ keys t, compar key k ≠ 0) :
    tdelete compar key t = (.null, t) := by
  induction t with
  | nil => rfl
  | node k left right ihl ihr =>
    simp only [keys, tdelete] at hkey ⊢
    grind

theorem inner_twalkNode (t : Tree α) (depth : Nat) : inner (twalkNode t depth) = keys t := by
  induction t, depth using twalkNode.induct with
  | case1 => rfl
  | case2 => rfl
  | case3 k left right depth hleaf ihl ihr =>
    rw [twalkNode, keys, ← ihl, ← ihr]
    · simp [inner]
    · exact hleaf

/-- A call keeps the tree ordered and the set of keys as the calls say. -/
theorem perform_step (h : TotalOrder compar) (ht : Ordered compar t) (call : Call α) (key : α) :
    Ordered compar (call.perform compar t) ∧
      ((∃ k ∈ keys (call.perform compar t), compar key k = 0) ↔
        match call with
        | .tsearch k => compar key k = 0 ∨ ∃ k ∈ keys t, compar key k = 0
        | .tfind _ => ∃ k ∈ keys t, compar key k = 0
        | .tdelete k => compar key k ≠ 0 ∧ ∃ k ∈ keys t, compar key k = 0) := by
  have hequal : ∀ a b c, compar a b = 0 → (compar a c = 0 ↔ compar b c = 0) := by
    intro a b c hab
    have hle := h.trans a b c
    have hle' := h.trans b a c
    have hge := h.trans c a b
    have hge' := h.trans c b a
    grind [h.swap a b, h.swap a c, h.swap b c, h.swap c a, h.swap c b, h.swap b a]
  cases call with
  | tsearch k =>
    dsimp only [Call.perform]
    rcases tsearch_cases h ht k with ⟨hsame, x, hx, hkx⟩ | ⟨l, r, hkeys, hnew, hless, hgreater⟩
    · rw [hsame]
      exact ⟨ht, .inr, fun hor => hor.elim (fun hk => ⟨x, hx, (hequal _ _ _ hk).2 hkx⟩) id⟩
    · rw [ordered_iff h, hkeys, List.pairwise_append] at ht
      rw [ordered_iff h, hnew, hkeys, List.pairwise_append, List.pairwise_cons]
      grind
  | tfind k => exact ⟨ht, Iff.rfl⟩
  | tdelete k =>
    dsimp only [Call.perform]
    rw [ordered_iff h, keys_tdelete h ht]
    refine ⟨((ordered_iff h).1 ht).filter _, ?_⟩
    simp only [List.mem_filter, decide_eq_true_eq]
    constructor
    · rintro ⟨x, ⟨hx, hkx⟩, hkey⟩
      exact ⟨fun hk => hkx ((hequal _ _ _ hk).1 hkey), x, hx, hkey⟩
    · rintro ⟨hk, x, hx, hkey⟩
      have hself := h.swap k k
      refine ⟨x, ⟨hx, fun hkx => hk ((hequal _ _ _ hkey).2 ((hequal _ _ _ hkx).1 ?_))⟩, hkey⟩
      omega

section
variable (h : TotalOrder compar) (calls : List (Call α))
include h calls

theorem treeAfter_ordered : Ordered compar (treeAfter compar calls) := by
  induction calls with
  | nil => trivial
  | cons call calls ih => exact (perform_step h ih call (by cases call <;> assumption)).1

theorem treeAfter_keys (key : α) :
    (∃ k ∈ keys (treeAfter compar calls), compar key k = 0) ↔ Inserted compar key calls := by
  induction calls with
  | nil => simp [treeAfter, keys, Inserted]
  | cons call calls ih =>
    refine (perform_step h (treeAfter_ordered h calls) call key).2.trans ?_
    cases call <;> simp only [Inserted, ih]

end

/-- The tree is a finite set of keys. -/
theorem finiteSet_of_calls (h : TotalOrder compar) (calls : List (Call α)) :
    let t := treeAfter compar calls
    Ordered compar t ∧
      (∀ key, (tfind compar key t).isSome = true ↔ Inserted compar key calls) ∧
      (∀ key, keys (tdelete compar key t).2 = (keys t).filter fun k => compar key k ≠ 0) ∧
      (∀ key, ¬ Inserted compar key calls → tdelete compar key t = (.null, t)) ∧
      inner (twalk t) = keys t ∧ (keys t).Pairwise (compar · · < 0) := by
  have ht := treeAfter_ordered h calls
  refine ⟨ht, fun key => ?_, keys_tdelete h ht, fun key hkey => ?_, inner_twalkNode _ 0,
    (ordered_iff h).1 ht⟩
  · rw [tfind_isSome h ht, treeAfter_keys h]
  · refine tdelete_absent fun k hk hcompar => hkey ?_
    exact (treeAfter_keys h calls key).1 ⟨k, hk, hcompar⟩

theorem finiteSet_two_one :
    Ordered (fun a b : Int => a - b)
      (treeAfter (fun a b : Int => a - b) [.tdelete 3, .tsearch 1, .tsearch 3, .tsearch 2]) :=
  (finiteSet_of_calls ⟨fun a b => by omega, fun a b c => by omega⟩ _).1

end RadKernel.Libc
