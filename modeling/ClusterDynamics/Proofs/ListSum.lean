import Mathlib

/-! Sums over lists that are filtered, mapped in part or joined. -/

namespace ClusterDynamics

variable {β γ M : Type} [AddCommMonoid M]

theorem sum_map_filter (l : List β) (p : β → Bool) (f : β → M) :
    ((l.filter p).map f).sum = (l.map fun x => if p x then f x else 0).sum := by
  induction l with
  | nil => rfl
  | cons x l ih =>
    rw [List.filter_cons, List.map_cons, List.sum_cons]
    cases h : p x with
    | true => rw [if_pos rfl, if_pos rfl, List.map_cons, List.sum_cons, ih]
    | false => rw [if_neg Bool.false_ne_true, if_neg Bool.false_ne_true, ih, zero_add]

theorem sum_map_flatMap (l : List β) (g : β → List γ) (f : γ → M) :
    ((l.flatMap g).map f).sum = (l.map fun x => ((g x).map f).sum).sum := by
  induction l with
  | nil => rfl
  | cons x l ih => rw [List.flatMap_cons, List.map_append, List.sum_append, ih, List.map_cons, List.sum_cons]

theorem sum_map_filterMap (l : List β) (g : β → Option γ) (f : γ → M) :
    ((l.filterMap g).map f).sum = (l.map fun x => ((g x).map f).getD 0).sum := by
  induction l with
  | nil => rfl
  | cons x l ih =>
    rw [List.filterMap_cons, List.map_cons, List.sum_cons, ← ih]
    cases g x with
    | none => exact (zero_add _).symm
    | some y => rw [List.map_cons, List.sum_cons, Option.map_some, Option.getD_some]

theorem sum_map_sum (l : List β) (t : Finset γ) (f : β → γ → M) :
    (l.map fun c => ∑ y ∈ t, f c y).sum = ∑ y ∈ t, (l.map fun c => f c y).sum := by
  induction l with
  | nil => simp
  | cons c l ih => simp only [List.map_cons, List.sum_cons, ih, Finset.sum_add_distrib]

/-- Sums over two lists with the same keys, each once, are equal when terms with one key are. -/
theorem sum_eq_of_keys {κ : Type} {l : List β} {l' : List γ} (key : β → κ) (key' : γ → κ)
    (hl : (l.map key).Nodup) (hl' : (l'.map key').Nodup) (hkeys : ∀ x, x ∈ l.map key ↔ x ∈ l'.map key')
    {f : β → M} {g : γ → M} (hfg : ∀ x ∈ l, ∀ y ∈ l', key x = key' y → f x = g y) :
    (l.map f).sum = (l'.map g).sum := by
  have hinj : Function.Injective fun x : {x // x ∈ l} => key x.1 := fun x y hxy =>
    Subtype.ext (List.inj_on_of_nodup_map hl x.2 y.2 hxy)
  -- What the terms of the first list are as a function of their keys.
  let term : κ → M := Function.extend (fun x : {x // x ∈ l} => key x.1) (fun x => f x.1) 0
  have hterm : ∀ x ∈ l, term (key x) = f x := fun x hx => hinj.extend_apply _ _ ⟨x, hx⟩
  have hterm' : ∀ y ∈ l', term (key' y) = g y := by
    intro y hy
    obtain ⟨x, hx, hxy⟩ := List.mem_map.mp ((hkeys _).mpr (List.mem_map_of_mem hy))
    rw [← hxy, hterm x hx, hfg x hx y hy hxy]
  have hperm : (l.map key).Perm (l'.map key') := (List.perm_ext_iff_of_nodup hl hl').mpr hkeys
  calc (l.map f).sum = ((l.map key).map term).sum := by
        rw [List.map_map, List.map_congr_left fun x hx => (hterm x hx).symm]
        rfl
    _ = ((l'.map key').map term).sum := (hperm.map term).sum_eq
    _ = (l'.map g).sum := by
        rw [List.map_map, List.map_congr_left fun y hy => (hterm' y hy).symm]
        rfl

end ClusterDynamics
