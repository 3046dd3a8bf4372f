import Mathlib.Algebra.GroupWithZero.Nat
import Mathlib.Data.List.Nodup
import Mathlib.Data.List.Sort

/-!
# Joins of tables

The join of two tables as lists of rows, by nested loops. Where the condition compares a
key of the other table, every row has at most one partner and a join keeps the number and
the order of the rows.

## Main definitions

- `innerJoin`, `leftJoin`: the joins of two tables
- `orderBy`: the rows in the order of a column
-/

namespace Table

variable {ρ σ τ κ : Type}

/-- `rows JOIN others ON …`: every row with each of its partners. -/
def innerJoin (on : ρ → σ → Bool) (rows : List ρ) (others : List σ) : List (ρ × σ) :=
  rows.flatMap fun r => (others.filter (on r)).map (r, ·)

/-- `rows LEFT JOIN others ON …`: a row without a partner is kept. -/
def leftJoin (on : ρ → σ → Bool) (rows : List ρ) (others : List σ) : List (ρ × Option σ) :=
  rows.flatMap fun r =>
    match others.filter (on r) with
    | [] => [(r, none)]
    | partners => partners.map fun s => (r, some s)

/-- `ORDER BY`, with rows that compare equal in the order of the table. -/
def orderBy [LE κ] [DecidableLE κ] (key : ρ → κ) (rows : List ρ) : List ρ :=
  rows.insertionSort fun a b => key a ≤ key b

theorem orderBy_perm [LE κ] [DecidableLE κ] (key : ρ → κ) (rows : List ρ) :
    (orderBy key rows).Perm rows :=
  List.perm_insertionSort _ rows

/-- The selected rows stand in the order of the column. -/
theorem orderBy_sorted [LinearOrder κ] (key : ρ → κ) (rows : List ρ) :
    (orderBy key rows).Pairwise fun a b => key a ≤ key b := by
  have htotal : Std.Total fun a b : ρ => key a ≤ key b := ⟨fun a b => le_total (key a) (key b)⟩
  have htrans : IsTrans ρ fun a b : ρ => key a ≤ key b := ⟨fun _ _ _ => le_trans⟩
  exact List.pairwise_insertionSort _ rows

/-- With a column of unique values the order is strict. -/
theorem orderBy_strict [LinearOrder κ] {key : ρ → κ} {rows : List ρ}
    (hn : (rows.map key).Nodup) : (orderBy key rows).Pairwise fun a b => key a < key b := by
  have hn' : ((orderBy key rows).map key).Nodup :=
    ((orderBy_perm key rows).map key).nodup_iff.mpr hn
  have hne : (orderBy key rows).Pairwise fun a b => key a ≠ key b := List.pairwise_map.mp hn'
  exact (orderBy_sorted key rows).imp₂ (fun _ _ hle hne => lt_of_le_of_ne hle hne) hne

/-! ## Rewritten partners -/

/-- A left join with rewritten partners is the left join, its partners rewritten. -/
theorem leftJoin_map (on : ρ → τ → Bool) (f : σ → τ) (rows : List ρ) (others : List σ) :
    leftJoin on rows (others.map f) =
      (leftJoin (fun r s => on r (f s)) rows others).map fun pair => (pair.1, pair.2.map f) := by
  rw [leftJoin, leftJoin, List.map_flatMap]
  refine List.flatMap_congr fun r _ => ?_
  rw [List.filter_map]
  cases h : others.filter fun s => on r (f s) with
  | nil => simp [Function.comp_def, h]
  | cons s partners => simp [Function.comp_def, h]

/-- An inner join with rewritten partners is the inner join, its partners rewritten. -/
theorem innerJoin_map (on : ρ → τ → Bool) (f : σ → τ) (rows : List ρ) (others : List σ) :
    innerJoin on rows (others.map f) =
      (innerJoin (fun r s => on r (f s)) rows others).map fun pair => (pair.1, f pair.2) := by
  rw [innerJoin, innerJoin, List.map_flatMap]
  refine List.flatMap_congr fun r _ => ?_
  rw [List.filter_map, List.map_map, List.map_map]
  rfl

/-! ## Rows with the same partners -/

theorem leftJoin_congr {on : ρ → σ → Bool} {rows : List ρ} {others others' : List σ}
    (h : ∀ r ∈ rows, others.filter (on r) = others'.filter (on r)) :
    leftJoin on rows others = leftJoin on rows others' :=
  List.flatMap_congr fun r hr => by rw [h r hr]

theorem innerJoin_congr {on : ρ → σ → Bool} {rows : List ρ} {others others' : List σ}
    (h : ∀ r ∈ rows, others.filter (on r) = others'.filter (on r)) :
    innerJoin on rows others = innerJoin on rows others' :=
  List.flatMap_congr fun r hr => by rw [h r hr]

/-- A condition on the rows before or after the join. -/
theorem filter_innerJoin (on : ρ → σ → Bool) (p : ρ → Bool) (rows : List ρ) (others : List σ) :
    (innerJoin on rows others).filter (fun pair => p pair.1) =
      innerJoin on (rows.filter p) others := by
  induction rows with
  | nil => rfl
  | cons r rows ih =>
    have hcons : ∀ l : List ρ, innerJoin on (r :: l) others =
        (others.filter (on r)).map (r, ·) ++ innerJoin on l others := fun l => List.flatMap_cons
    rw [hcons, List.filter_append, ih, List.filter_map]
    cases hr : p r with
    | true =>
      rw [List.filter_cons_of_pos hr, hcons]
      congr 2
      exact List.filter_eq_self.mpr fun s _ => hr
    | false =>
      rw [List.filter_cons_of_neg (by rw [hr]; exact Bool.false_ne_true)]
      have hnone : (others.filter (on r)).filter ((fun pair : ρ × σ => p pair.1) ∘ (r, ·)) = [] :=
        List.filter_eq_nil_iff.mpr fun s _ => by rw [Function.comp_apply, hr]; decide
      rw [hnone, List.map_nil, List.nil_append]

/-! ## Rows with at most one partner -/

theorem mem_innerJoin {on : ρ → σ → Bool} {rows : List ρ} {others : List σ} {pair : ρ × σ} :
    pair ∈ innerJoin on rows others ↔
      pair.1 ∈ rows ∧ pair.2 ∈ others ∧ on pair.1 pair.2 = true := by
  obtain ⟨r, s⟩ := pair
  simp [innerJoin]

/-- An inner join keeps the rows when each has one partner. -/
theorem map_innerJoin {on : ρ → σ → Bool} {rows : List ρ} {others : List σ} {f : ρ × σ → τ}
    {g : ρ → τ} (h : ∀ r ∈ rows, (others.filter (on r)).map (fun s => f (r, s)) = [g r]) :
    (innerJoin on rows others).map f = rows.map g := by
  induction rows with
  | nil => rfl
  | cons r rows ih =>
    have hrest : (innerJoin on rows others).map f = rows.map g :=
      ih fun x hx => h x (List.mem_cons_of_mem _ hx)
    rw [innerJoin, List.flatMap_cons, ← innerJoin, List.map_append, List.map_map, hrest,
      List.map_cons, ← List.singleton_append, ← h r List.mem_cons_self]
    rfl

/-- A left join keeps the rows when each has at most one partner. -/
theorem leftJoin_eq_map {on : ρ → σ → Bool} {rows : List ρ} {others : List σ}
    {f : ρ → Option σ} (h : ∀ r ∈ rows, others.filter (on r) = (f r).toList) :
    leftJoin on rows others = rows.map fun r => (r, f r) := by
  induction rows with
  | nil => rfl
  | cons r rows ih =>
    have hrest : leftJoin on rows others = rows.map fun r => (r, f r) :=
      ih fun x hx => h x (List.mem_cons_of_mem _ hx)
    rw [leftJoin, List.flatMap_cons, h r List.mem_cons_self, ← leftJoin, hrest, List.map_cons]
    cases f r with
    | none => rfl
    | some s => rfl

/-- The rows with a given value of a unique key: at most one, the first that there is. -/
theorem filter_key_eq_toList [DecidableEq κ] {key : σ → κ} {others : List σ}
    (hn : (others.map key).Nodup) (k : κ) :
    (others.filter fun s => key s = k) = (others.find? fun s => key s = k).toList := by
  induction others with
  | nil => rfl
  | cons s others ih =>
    obtain ⟨hs, hn⟩ := List.nodup_cons.mp hn
    by_cases hk : key s = k
    · have hrest : (others.filter fun s => key s = k) = [] := by
        rw [List.filter_eq_nil_iff]
        intro x hx hxk
        exact hs (hk ▸ of_decide_eq_true hxk ▸ List.mem_map_of_mem hx)
      rw [List.filter_cons_of_pos (by simpa using hk), List.find?_cons_of_pos (by simpa using hk),
        hrest]
      rfl
    · rw [List.filter_cons_of_neg (by simpa using hk), List.find?_cons_of_neg (by simpa using hk),
        ih hn]

/-- The one partner that a reference leads to. -/
theorem exists_partner [DecidableEq κ] {key : σ → κ} {others : List σ}
    (hn : (others.map key).Nodup) {k : κ} (h : ∃ s ∈ others, key s = k) :
    ∃ s, (others.find? fun s => key s = k) = some s ∧
      (others.filter fun s => k = key s) = [s] := by
  obtain ⟨s, hs, hk⟩ := h
  have hfilter := filter_key_eq_toList hn k
  cases hfind : others.find? fun s => key s = k with
  | none => exact absurd (decide_eq_true hk) (List.find?_eq_none.mp hfind s hs)
  | some found =>
    rw [hfind] at hfilter
    exact ⟨found, rfl, by simpa only [eq_comm, Option.toList_some] using hfilter⟩

/-! ## Counting by a reference -/

/-- Counting the rows of every key counts the rows once each. -/
theorem sum_countP_key [DecidableEq κ] {keys : List κ} (hn : keys.Nodup) (key : ρ → κ)
    (p : ρ → Bool) (rows : List ρ) :
    (keys.map fun k => rows.countP fun r => key r = k ∧ p r).sum =
      rows.countP fun r => key r ∈ keys ∧ p r := by
  induction keys with
  | nil => simp
  | cons k keys ih =>
    obtain ⟨hk, hn⟩ := List.nodup_cons.mp hn
    rw [List.map_cons, List.sum_cons, ih hn]
    clear ih
    induction rows with
    | nil => rfl
    | cons r rows ihr =>
      simp only [List.countP_cons]
      rw [← ihr]
      by_cases hr : key r = k
      · simp only [hr, hk, true_and, false_and, List.mem_cons, true_or]
        split <;> simp [Nat.add_right_comm]
      · simp only [hr, false_and, List.mem_cons, false_or]
        simp [Nat.add_assoc]

end Table
