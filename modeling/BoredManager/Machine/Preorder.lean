import Mathlib.Data.List.Flatten
import Mathlib.Data.List.Nodup
import Mathlib.Logic.Relation

/-! A walk that visits a node before its children, with depths: `none` where it has not come to its
end. Where every node is deeper than the one node it is a child of, it ends, and visits once. -/
namespace BoredManager.Machine.Preorder

variable {α β : Type*}

/-- The answers for a list of nodes, one behind the other. -/
def gather (f : α → Option (List β)) : List α → Option (List β)
  | [] => some []
  | a :: l => (f a).bind fun first => (gather f l).map (first ++ ·)

def walk (kids : α → List α) : Nat → Nat → α → Option (List (α × Nat))
  | 0, _, _ => none
  | fuel + 1, depth, a => (gather (walk kids fuel (depth + 1)) (kids a)).map ((a, depth) :: ·)

theorem gather_cons_eq_some {f : α → Option (List β)} {a : α} {l : List α} {out : List β} :
    gather f (a :: l) = some out ↔
      ∃ first rest, f a = some first ∧ gather f l = some rest ∧ first ++ rest = out := by
  simp only [gather, Option.bind_eq_some_iff, Option.map_eq_some_iff]
  constructor
  · rintro ⟨first, hfirst, rest, hrest, heq⟩
    exact ⟨first, rest, hfirst, hrest, heq⟩
  · rintro ⟨first, rest, hfirst, hrest, heq⟩
    exact ⟨first, hfirst, rest, hrest, heq⟩

/-- An answer for every node is an answer for the list. -/
theorem exists_gather {f : α → Option (List β)} {l : List α} (h : ∀ a ∈ l, ∃ out, f a = some out) :
    ∃ out, gather f l = some out := by
  induction l with
  | nil => exact ⟨[], rfl⟩
  | cons a l ih =>
    obtain ⟨first, hfirst⟩ := h a List.mem_cons_self
    obtain ⟨rest, hrest⟩ := ih fun b hb => h b (List.mem_cons_of_mem _ hb)
    exact ⟨_, gather_cons_eq_some.mpr ⟨first, rest, hfirst, hrest, rfl⟩⟩

/-- What an answer holds, some node's answer holds. -/
theorem mem_gather {f : α → Option (List β)} {l : List α} {out : List β} (h : gather f l = some out)
    {b : β} (hb : b ∈ out) : ∃ a ∈ l, ∃ part, f a = some part ∧ b ∈ part ∧ part.Sublist out := by
  induction l generalizing out with
  | nil => cases h; cases hb
  | cons a l ih =>
    obtain ⟨first, rest, hfirst, hrest, rfl⟩ := gather_cons_eq_some.mp h
    obtain hb | hb := List.mem_append.mp hb
    · exact ⟨a, List.mem_cons_self, first, hfirst, hb, List.sublist_append_left first rest⟩
    · obtain ⟨c, hc, part, hpart, hmem, hsub⟩ := ih hrest hb
      exact ⟨c, List.mem_cons_of_mem _ hc, part, hpart, hmem, hsub.trans (List.sublist_append_right first rest)⟩

/-- What is done with every answer can be done at the end. -/
theorem gather_map {γ : Type*} (f : α → Option (List β)) (g : β → γ) (l : List α) :
    gather (fun a => (f a).map (List.map g)) l = (gather f l).map (List.map g) := by
  induction l with
  | nil => rfl
  | cons a l ih =>
    rw [gather, gather, ih]
    cases f a with
    | none => rfl
    | some first =>
      cases gather f l with
      | none => rfl
      | some rest => simp

variable {kids : α → List α}

theorem walk_eq_some {fuel depth : Nat} {a : α} {l : List (α × Nat)} :
    walk kids fuel depth a = some l ↔ ∃ n rest, fuel = n + 1 ∧
      gather (walk kids n (depth + 1)) (kids a) = some rest ∧ (a, depth) :: rest = l := by
  cases fuel with
  | zero => simp [walk]
  | succ n => simp [walk, Option.map_eq_some_iff]

/-- A node that is not where the walk began stands behind a node that it is a child of. -/
theorem parent_before {fuel depth : Nat} {a : α} {l : List (α × Nat)}
    (h : walk kids fuel depth a = some l) :
    ∀ q ∈ l, q = (a, depth) ∨ ∃ p, [p, q].Sublist l ∧ q.1 ∈ kids p.1 ∧ q.2 = p.2 + 1 := by
  induction fuel generalizing depth a l with
  | zero => cases h
  | succ fuel ih =>
    obtain ⟨n, rest, hn, hrest, rfl⟩ := walk_eq_some.mp h
    cases hn
    intro q hq
    obtain rfl | hq := List.mem_cons.mp hq
    · exact .inl rfl
    · obtain ⟨b, hb, part, hpart, hmem, hsub⟩ := mem_gather hrest hq
      obtain rfl | ⟨p, hp, hkid, hdepth⟩ := ih hpart q hmem
      · refine .inr ⟨(a, depth), ?_, hb, rfl⟩
        exact (List.singleton_sublist.mpr hq).cons_cons _
      · exact .inr ⟨p, (hp.trans hsub).cons _, hkid, hdepth⟩

/-! ### How often a node is visited -/

section count
variable [DecidableEq α]

/-- A node is visited for each time it is a root, and for each visit to a node it is a child of. -/
theorem count_gather (hnodup : ∀ a, (kids a).Nodup) {fuel depth : Nat} {roots : List α}
    {l : List (α × Nat)} (h : gather (walk kids fuel depth) roots = some l) (b : α) :
    (l.map Prod.fst).count b =
      roots.count b + (l.map Prod.fst).countP fun x => decide (b ∈ kids x) := by
  induction fuel generalizing depth roots l with
  | zero =>
    cases roots with
    | nil => cases h; rfl
    | cons a roots =>
      obtain ⟨first, rest, hfirst, -⟩ := gather_cons_eq_some.mp h
      cases hfirst
  | succ fuel ih =>
    induction roots generalizing l with
    | nil => cases h; rfl
    | cons a roots ihr =>
      obtain ⟨first, rest, hfirst, hrest, rfl⟩ := gather_cons_eq_some.mp h
      obtain ⟨n, below, hn, hbelow, rfl⟩ := walk_eq_some.mp hfirst
      cases hn
      have hkids := ih hbelow
      have hmore := ihr hrest
      have hone : (kids a).count b = if b ∈ kids a then 1 else 0 := (hnodup a).count
      simp only [List.cons_append, List.map_cons, List.map_append, List.count_cons, List.count_append,
        List.countP_cons, List.countP_append, hkids, hmore, hone, decide_eq_true_eq]
      omega

end count

/-! ### Layers -/

/-- Children are deeper than the one node they belong to. -/
structure Layered (kids : α → List α) (level : α → Nat) (P : α → Prop) : Prop where
  nodup : ∀ a, (kids a).Nodup
  closed : ∀ a, P a → ∀ b ∈ kids a, P b
  deeper : ∀ a, P a → ∀ b ∈ kids a, level a < level b
  single : ∀ a b c, P a → P b → c ∈ kids a → c ∈ kids b → a = b

variable {level : α → Nat} {P : α → Prop}

/-- Fewer children are layered as well. -/
theorem Layered.fewer (h : Layered kids level P) {fewer : α → List α}
    (hnodup : ∀ a, (fewer a).Nodup) (hsub : ∀ a, fewer a ⊆ kids a) : Layered fewer level P where
  nodup := hnodup
  closed a ha b hb := h.closed a ha b (hsub a hb)
  deeper a ha b hb := h.deeper a ha b (hsub a hb)
  single a b c ha hb hca hcb := h.single a b c ha hb (hsub a hca) (hsub b hcb)

/-- With enough fuel the walk comes to its end. -/
theorem Layered.exists_walk (h : Layered kids level P) {bound : Nat} (hbound : ∀ a, P a → level a ≤ bound)
    {fuel : Nat} (depth : Nat) {a : α} (ha : P a) (hfuel : bound - level a < fuel) :
    ∃ l, walk kids fuel depth a = some l := by
  induction fuel generalizing depth a with
  | zero => omega
  | succ fuel ih =>
    have hkids : ∀ b ∈ kids a, ∃ l, walk kids fuel (depth + 1) b = some l := by
      intro b hb
      have hlevel := h.deeper a ha b hb
      have hb' := hbound b (h.closed a ha b hb)
      exact ih (depth + 1) (h.closed a ha b hb) (by omega)
    obtain ⟨rest, hrest⟩ := exists_gather hkids
    exact ⟨_, walk_eq_some.mpr ⟨fuel, rest, rfl, hrest, rfl⟩⟩

/-- Every node of a walk is reached through children. -/
theorem reached {fuel depth : Nat} {a : α} {l : List (α × Nat)} (h : walk kids fuel depth a = some l) :
    ∀ q ∈ l, Relation.ReflTransGen (fun x y => y ∈ kids x) a q.1 := by
  induction fuel generalizing depth a l with
  | zero => cases h
  | succ fuel ih =>
    obtain ⟨n, rest, hn, hrest, rfl⟩ := walk_eq_some.mp h
    cases hn
    intro q hq
    obtain rfl | hq := List.mem_cons.mp hq
    · exact .refl
    · obtain ⟨b, hb, part, hpart, hmem, -⟩ := mem_gather hrest hq
      exact .head hb (ih hpart q hmem)

theorem Layered.reached_P (h : Layered kids level P) {a b : α} (ha : P a)
    (hab : Relation.ReflTransGen (fun x y => y ∈ kids x) a b) : P b := by
  induction hab with
  | refl => exact ha
  | tail _ hstep ih => exact h.closed _ ih _ hstep

theorem Layered.le_reached (h : Layered kids level P) {a b : α} (ha : P a)
    (hab : Relation.ReflTransGen (fun x y => y ∈ kids x) a b) : level a ≤ level b := by
  induction hab with
  | refl => exact Nat.le_refl _
  | tail hreach hstep ih => exact Nat.le_trans ih (Nat.le_of_lt (h.deeper _ (h.reached_P ha hreach) _ hstep))

/-- What lies under one node is layered. -/
theorem Layered.under (h : Layered kids level P) {a : α} (ha : P a) :
    Layered kids level (Relation.ReflTransGen (fun x y => y ∈ kids x) a) where
  nodup := h.nodup
  closed _ hb _ hc := hb.tail hc
  deeper b hb := h.deeper b (h.reached_P ha hb)
  single b c d hb hc := h.single b c d (h.reached_P ha hb) (h.reached_P ha hc)

section nodup
variable [DecidableEq α]

/-- A node is visited as a root, or as a child of a visited node. -/
theorem mem_gather_iff (hnodup : ∀ a, (kids a).Nodup) {fuel depth : Nat} {roots : List α}
    {l : List (α × Nat)} (h : gather (walk kids fuel depth) roots = some l) {b : α} :
    b ∈ l.map Prod.fst ↔ b ∈ roots ∨ ∃ a ∈ l.map Prod.fst, b ∈ kids a := by
  have hroots : 0 < roots.count b ↔ b ∈ roots := List.count_pos_iff
  have hkids : 0 < (l.map Prod.fst).countP (fun x => decide (b ∈ kids x)) ↔
      ∃ a ∈ l.map Prod.fst, b ∈ kids a := by
    simp only [List.countP_pos_iff, decide_eq_true_iff]
  rw [← hroots, ← hkids, ← List.count_pos_iff, count_gather hnodup h]
  omega

/-- No node is visited twice, when the roots are no children and are listed once. -/
theorem Layered.nodup_gather (h : Layered kids level P) {fuel depth : Nat} {roots : List α}
    {l : List (α × Nat)} (hwalk : gather (walk kids fuel depth) roots = some l) (hroots : roots.Nodup)
    (hP : ∀ a ∈ roots, P a) (htop : ∀ a ∈ roots, ∀ x, P x → a ∉ kids x) : (l.map Prod.fst).Nodup := by
  have hnodes : ∀ x ∈ l.map Prod.fst, P x := by
    intro x hx
    obtain ⟨q, hq, rfl⟩ := List.mem_map.mp hx
    obtain ⟨a, ha, part, hpart, hmem, -⟩ := mem_gather hwalk hq
    exact h.reached_P (hP a ha) (reached hpart q hmem)
  rw [List.nodup_iff_count_le_one]
  intro b
  induction hlevel : level b using Nat.strongRecOn generalizing b with
  | _ n ih =>
    subst hlevel
    rw [count_gather h.nodup hwalk]
    by_cases hroot : b ∈ roots
    · have hnone : (l.map Prod.fst).countP (fun x => decide (b ∈ kids x)) = 0 :=
        List.countP_eq_zero.mpr fun x hx => by simpa using htop b hroot x (hnodes x hx)
      rw [hnone]
      exact List.nodup_iff_count_le_one.mp hroots b
    · rw [List.count_eq_zero.mpr hroot, Nat.zero_add]
      by_cases hkid : ∃ x ∈ l.map Prod.fst, b ∈ kids x
      · obtain ⟨x, hx, hb⟩ := hkid
        have hsame : (l.map Prod.fst).countP (fun y => decide (b ∈ kids y)) =
            (l.map Prod.fst).count x := by
          rw [List.count]
          refine List.countP_congr fun y hy => ?_
          rw [decide_eq_true_iff, beq_iff_eq]
          exact ⟨fun hby => h.single y x b (hnodes y hy) (hnodes x hx) hby hb, fun heq => heq ▸ hb⟩
        rw [hsame]
        exact ih (level x) (h.deeper x (hnodes x hx) b hb) x rfl
      · have hnone : (l.map Prod.fst).countP (fun x => decide (b ∈ kids x)) = 0 :=
          List.countP_eq_zero.mpr fun x hx => by simpa using fun hb => hkid ⟨x, hx, hb⟩
        omega

/-- One walk visits no node twice. -/
theorem Layered.nodup_walk (h : Layered kids level P) {fuel depth : Nat} {a : α} {l : List (α × Nat)}
    (ha : P a) (hwalk : walk kids fuel depth a = some l) : (l.map Prod.fst).Nodup := by
  have hgather : gather (walk kids fuel depth) [a] = some l :=
    gather_cons_eq_some.mpr ⟨l, [], hwalk, rfl, List.append_nil l⟩
  refine (h.under ha).nodup_gather hgather (List.nodup_singleton a) ?_ ?_
  · intro b hb
    rw [List.mem_singleton.mp hb]
  · intro b hb x hx hkid
    rw [List.mem_singleton.mp hb] at hkid
    have hdeeper := (h.under ha).deeper x hx a hkid
    have hle := h.le_reached ha hx
    omega

/-- A walk visits what can be reached. -/
theorem mem_walk_iff (hnodup : ∀ a, (kids a).Nodup) {fuel depth : Nat} {a b : α} {l : List (α × Nat)}
    (h : walk kids fuel depth a = some l) :
    b ∈ l.map Prod.fst ↔ Relation.ReflTransGen (fun x y => y ∈ kids x) a b := by
  have hgather : gather (walk kids fuel depth) [a] = some l :=
    gather_cons_eq_some.mpr ⟨l, [], h, rfl, List.append_nil l⟩
  constructor
  · intro hb
    obtain ⟨q, hq, rfl⟩ := List.mem_map.mp hb
    exact reached h q hq
  · intro hab
    induction hab with
    | refl =>
      obtain ⟨n, rest, -, -, rfl⟩ := walk_eq_some.mp h
      exact List.mem_cons_self
    | tail _ hstep ih => exact (mem_gather_iff hnodup hgather).mpr (.inr ⟨_, ih, hstep⟩)

end nodup

end BoredManager.Machine.Preorder
