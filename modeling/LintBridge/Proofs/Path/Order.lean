import LintBridge.Path

/-! The order of octet lists is the lexicographic one.  The order of paths is that of their
components, first by kind and then by octets; it is a total order of the lists of components, and
two spellings of one path are equal in it. -/

namespace LintBridge.Path

/-! ### Octets -/

theorem compareBytes_eq_lt {s t : List UInt8} : compareBytes s t = .lt ↔ s < t := by
  fun_induction compareBytes s t with
  | case1 => simp
  | case2 b t => simp
  | case3 a s => simp
  | case4 a s b t ih =>
    rw [Ordering.then_eq_lt, Nat.compare_eq_lt, Nat.compare_eq_eq, ih, List.cons_lt_cons_iff,
      UInt8.lt_iff_toNat_lt, UInt8.toNat_inj]

theorem compareBytes_eq_eq {s t : List UInt8} : compareBytes s t = .eq ↔ s = t := by
  fun_induction compareBytes s t with
  | case1 => simp
  | case2 b t => simp
  | case3 a s => simp
  | case4 a s b t ih =>
    rw [Ordering.then_eq_eq, Nat.compare_eq_eq, ih, UInt8.toNat_inj, List.cons.injEq]

theorem compareBytes_swap (s t : List UInt8) : (compareBytes s t).swap = compareBytes t s := by
  fun_induction compareBytes s t with
  | case1 => rfl
  | case2 b t => rfl
  | case3 a s => rfl
  | case4 a s b t ih => rw [Ordering.swap_then, Nat.compare_swap, ih, compareBytes]

theorem compareBytes_eq_gt {s t : List UInt8} : compareBytes s t = .gt ↔ t < s := by
  rw [← compareBytes_eq_lt, ← compareBytes_swap s t, Ordering.swap_eq_lt]

/-! ### Components -/

namespace Component

variable {a b c : Component}

theorem eq_of_bytes (rank : a.rank = b.rank) (bytes : a.bytes = b.bytes) : a = b := by
  cases a <;> cases b <;> first | rfl | exact congrArg normal bytes | cases rank

theorem compare_eq_eq : a.compare b = .eq ↔ a = b := by
  rw [compare, Ordering.then_eq_eq, Nat.compare_eq_eq, compareBytes_eq_eq]
  refine ⟨fun h => eq_of_bytes h.1 h.2, ?_⟩
  rintro rfl
  exact ⟨rfl, rfl⟩

theorem compare_swap (a b : Component) : (a.compare b).swap = b.compare a := by
  rw [compare, Ordering.swap_then, Nat.compare_swap, compareBytes_swap, compare]

theorem compare_eq_lt :
    a.compare b = .lt ↔ a.rank < b.rank ∨ a.rank = b.rank ∧ a.bytes < b.bytes := by
  rw [compare, Ordering.then_eq_lt, Nat.compare_eq_lt, Nat.compare_eq_eq, compareBytes_eq_lt]

theorem compare_lt_trans (h : a.compare b = .lt) (h' : b.compare c = .lt) :
    a.compare c = .lt := by
  rw [compare_eq_lt] at *
  obtain first | ⟨same, first⟩ := h
  · obtain next | ⟨same', -⟩ := h'
    · exact .inl (Nat.lt_trans first next)
    · exact .inl (same' ▸ first)
  · obtain next | ⟨same', next⟩ := h'
    · exact .inl (same ▸ next)
    · exact .inr ⟨same.trans same', List.lt_trans first next⟩

end Component

section Lists

variable {cs ds es : List Component}

theorem compareComponents_eq_eq : compareComponents cs ds = .eq ↔ cs = ds := by
  fun_induction compareComponents cs ds with
  | case1 => simp
  | case2 b t => simp
  | case3 a s => simp
  | case4 a s b t ih =>
    rw [Ordering.then_eq_eq, Component.compare_eq_eq, ih, List.cons.injEq]

theorem compareComponents_swap (cs ds : List Component) :
    (compareComponents cs ds).swap = compareComponents ds cs := by
  fun_induction compareComponents cs ds with
  | case1 => rfl
  | case2 b t => rfl
  | case3 a s => rfl
  | case4 a s b t ih => rw [Ordering.swap_then, Component.compare_swap, ih, compareComponents]

theorem compareComponents_lt_trans (h : compareComponents cs ds = .lt)
    (h' : compareComponents ds es = .lt) : compareComponents cs es = .lt := by
  induction cs generalizing ds es with
  | nil =>
    cases es with
    | nil => cases ds <;> cases h'
    | cons e es => rfl
  | cons c cs ih =>
    match ds, es with
    | d :: ds, e :: es =>
      rw [compareComponents, Ordering.then_eq_lt, Component.compare_eq_eq] at *
      obtain first | ⟨rfl, first⟩ := h
      · obtain next | ⟨rfl, -⟩ := h'
        · exact .inl (Component.compare_lt_trans first next)
        · exact .inl first
      · obtain next | ⟨rfl, next⟩ := h'
        · exact .inl next
        · exact .inr ⟨rfl, ih first next⟩

end Lists

/-! ### Paths -/

variable {p q r : Path}

theorem compare_eq_eq : p.compare q = .eq ↔ p.components = q.components := compareComponents_eq_eq

theorem compare_swap (p q : Path) : (p.compare q).swap = q.compare p :=
  compareComponents_swap p.components q.components

theorem compare_lt_trans (h : p.compare q = .lt) (h' : q.compare r = .lt) : p.compare r = .lt :=
  compareComponents_lt_trans h h'

theorem compare_self (p : Path) : p.compare p = .eq := compare_eq_eq.mpr rfl

/-- Only the components of a path count for its order. -/
theorem compare_congr {p' q' : Path} (same : p'.components = p.components)
    (same' : q'.components = q.components) : p'.compare q' = p.compare q := by
  rw [compare, same, same', compare]

/-- Of two paths that are not one, one comes first. -/
theorem compare_ne_gt : p.compare q ≠ .gt ↔ p.compare q = .lt ∨ p.components = q.components := by
  rw [← compare_eq_eq]
  cases p.compare q <;> simp

end LintBridge.Path
