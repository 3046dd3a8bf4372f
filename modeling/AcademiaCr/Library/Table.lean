import Mathlib.Data.Int.Order.Basic
import Mathlib.Data.List.Nodup
import Mathlib.Order.Basic

/-!
# Tables as lists of rows

The statements of a relational store on one table: an update rewrites the rows that
match, an insertion appends a row, a deletion filters. The lemmas say what each does to
the number of rows with a property and to the keys of the table.
-/

namespace Table

variable {ρ κ : Type}

/-- Rewrite the matching rows of a table in place. -/
def update (p : ρ → Bool) (f : ρ → ρ) (rows : List ρ) : List ρ :=
  rows.map fun r => if p r then f r else r

@[simp] theorem update_nil (p : ρ → Bool) (f : ρ → ρ) : update p f [] = [] := rfl

@[simp] theorem update_cons (p : ρ → Bool) (f : ρ → ρ) (r : ρ) (rows : List ρ) :
    update p f (r :: rows) = (if p r then f r else r) :: update p f rows := rfl

theorem mem_update {p : ρ → Bool} {f : ρ → ρ} {rows : List ρ} {x : ρ} :
    x ∈ update p f rows ↔ ∃ r ∈ rows, (if p r then f r else r) = x := List.mem_map

/-- An update whose condition holds nowhere changes nothing. -/
theorem update_eq_self {p : ρ → Bool} {f : ρ → ρ} {rows : List ρ}
    (h : ∀ r ∈ rows, p r = true → f r = r) : update p f rows = rows := by
  induction rows with
  | nil => rfl
  | cons r rows ih =>
    rw [update_cons, ih fun x hx => h x (List.mem_cons_of_mem _ hx)]
    split
    · next hp => rw [h r List.mem_cons_self hp]
    · rfl

/-- A projection that the rewriting keeps is kept by the update. -/
theorem map_update {p : ρ → Bool} {f : ρ → ρ} {key : ρ → κ}
    (h : ∀ r, p r = true → key (f r) = key r)
    (rows : List ρ) : (update p f rows).map key = rows.map key := by
  induction rows with
  | nil => rfl
  | cons r rows ih =>
    rw [update_cons, List.map_cons, List.map_cons, ih]
    split
    · next hp => rw [h r hp]
    · rfl

/-- The rows with a property that the rewriting keeps are updated among themselves. -/
theorem filter_update {p q : ρ → Bool} {f : ρ → ρ} (h : ∀ r, p r = true → q (f r) = q r)
    (rows : List ρ) : (update p f rows).filter q = update p f (rows.filter q) := by
  induction rows with
  | nil => rfl
  | cons r rows ih =>
    have hq : q (if p r then f r else r) = q r := by
      split
      · next hp => exact h r hp
      · rfl
    rw [update_cons]
    cases hr : q r with
    | true =>
      rw [List.filter_cons_of_pos (by rw [hq, hr]), List.filter_cons_of_pos hr, update_cons, ih]
    | false =>
      rw [List.filter_cons_of_neg (by rw [hq, hr]; exact Bool.false_ne_true),
        List.filter_cons_of_neg (by rw [hr]; exact Bool.false_ne_true), ih]

/-- An update keeps the number of rows with a property that the rewriting keeps. -/
theorem countP_update {p q : ρ → Bool} {f : ρ → ρ} (h : ∀ r, p r = true → q (f r) = q r)
    (rows : List ρ) : (update p f rows).countP q = rows.countP q := by
  induction rows with
  | nil => rfl
  | cons r rows ih =>
    rw [update_cons, List.countP_cons, List.countP_cons, ih]
    split
    · next hp => rw [h r hp]
    · rfl

/-- An update that gives its matching rows a property they lacked adds their number. -/
theorem countP_update_gain {p q : ρ → Bool} {f : ρ → ρ}
    (h : ∀ r, p r = true → q r = false ∧ q (f r) = true) (rows : List ρ) :
    (update p f rows).countP q = rows.countP q + rows.countP p := by
  induction rows with
  | nil => rfl
  | cons r rows ih =>
    simp only [update_cons, List.countP_cons, ih]
    by_cases hp : p r = true
    · simp only [hp, (h r hp).1, (h r hp).2, if_true]
      simp; omega
    · simp only [hp, if_false, Bool.false_eq_true]
      omega

/-- An update that takes a property from its matching rows removes their number. -/
theorem countP_update_loss {p q : ρ → Bool} {f : ρ → ρ}
    (h : ∀ r, p r = true → q r = true ∧ q (f r) = false) (rows : List ρ) :
    (update p f rows).countP q + rows.countP p = rows.countP q := by
  induction rows with
  | nil => rfl
  | cons r rows ih =>
    simp only [update_cons, List.countP_cons, ← ih]
    by_cases hp : p r = true
    · simp only [hp, (h r hp).1, (h r hp).2, if_true]
      simp; omega
    · simp only [hp, if_false, Bool.false_eq_true]
      omega

/-- A deletion adds no rows of any kind. -/
theorem countP_filter_le (p q : ρ → Bool) (rows : List ρ) :
    (rows.filter p).countP q ≤ rows.countP q :=
  List.Sublist.countP_le List.filter_sublist

/-! ## Unique keys -/

/-- Rows of a table with unique keys are determined by their key. -/
theorem eq_of_key_eq {key : ρ → κ} {rows : List ρ} (hn : (rows.map key).Nodup) {x y : ρ}
    (hx : x ∈ rows) (hy : y ∈ rows) (h : key x = key y) : x = y :=
  List.inj_on_of_nodup_map hn hx hy h

/-- A unique key selects at most one row. -/
theorem countP_key_le_one [DecidableEq κ] {key : ρ → κ} {rows : List ρ}
    (hn : (rows.map key).Nodup) {p : ρ → Bool} {k : κ} (hp : ∀ r, p r = true → key r = k) :
    rows.countP p ≤ 1 := by
  have hle : rows.countP p ≤ (rows.map key).count k := by
    rw [List.count, List.countP_map]
    exact List.countP_mono_left fun r _ hr => by simp [hp r hr]
  exact Nat.le_trans hle (List.nodup_iff_count_le_one.mp hn k)

theorem nodup_append_key {key : ρ → κ} {rows : List ρ} (hn : (rows.map key).Nodup) {r : ρ}
    (hr : ∀ x ∈ rows, key x ≠ key r) : ((rows ++ [r]).map key).Nodup := by
  rw [List.map_append, List.map_singleton, List.nodup_append]
  refine ⟨hn, List.nodup_singleton _, ?_⟩
  intro a ha b hb
  obtain ⟨x, hx, rfl⟩ := List.mem_map.mp ha
  rw [List.mem_singleton.mp hb]
  exact hr x hx

theorem nodup_filter_key {key : ρ → κ} {rows : List ρ} (hn : (rows.map key).Nodup) (p : ρ → Bool) :
    ((rows.filter p).map key).Nodup :=
  hn.sublist (List.filter_sublist.map key)

/-- An update that keeps a unique key keeps it unique. -/
theorem nodup_update_key {key : ρ → κ} {rows : List ρ} (hn : (rows.map key).Nodup) {p : ρ → Bool}
    {f : ρ → ρ} (h : ∀ r, p r = true → key (f r) = key r) : ((update p f rows).map key).Nodup := by
  rw [map_update h]
  exact hn

/-- With unique keys a row is what a search for its key finds. -/
theorem find?_key [DecidableEq κ] {key : ρ → κ} {rows : List ρ} (hn : (rows.map key).Nodup) {r : ρ}
    (hr : r ∈ rows) : rows.find? (fun x => key x = key r) = some r := by
  obtain ⟨y, hy⟩ := Option.isSome_iff_exists.mp
    (List.find?_isSome.mpr ⟨r, hr, by simp⟩ :
      (rows.find? fun x => key x = key r).isSome = true)
  have hk : key y = key r := by simpa using List.find?_some hy
  rw [hy, eq_of_key_eq hn (List.mem_of_find?_eq_some hy) hr hk]

/-- A search by a key that the update keeps finds the rewritten row. -/
theorem find?_update {p q : ρ → Bool} {f : ρ → ρ} (h : ∀ r, p r = true → q (f r) = q r)
    (rows : List ρ) :
    (update p f rows).find? q = (rows.find? q).map fun r => if p r then f r else r := by
  induction rows with
  | nil => rfl
  | cons r rows ih =>
    have hq : q (if p r then f r else r) = q r := by
      split
      · next hp => exact h r hp
      · rfl
    rw [update_cons]
    cases hr : q r with
    | true => rw [List.find?_cons_of_pos (by rw [hq, hr]), List.find?_cons_of_pos hr]; rfl
    | false =>
      rw [List.find?_cons_of_neg (by rw [hq, hr]; exact Bool.false_ne_true),
        List.find?_cons_of_neg (by rw [hr]; exact Bool.false_ne_true), ih]

/-- A search among the rows that alone can be hit. -/
theorem find?_filter_of_imp {p q : ρ → Bool} {rows : List ρ}
    (h : ∀ r ∈ rows, q r = true → p r = true) : (rows.filter p).find? q = rows.find? q := by
  induction rows with
  | nil => rfl
  | cons r rows ih =>
    have hrest := ih fun x hx => h x (List.mem_cons_of_mem r hx)
    cases hq : q r with
    | true =>
      rw [List.filter_cons_of_pos (h r List.mem_cons_self hq), List.find?_cons_of_pos hq,
        List.find?_cons_of_pos hq]
    | false =>
      have hmiss : ¬ q r = true := by rw [hq]; exact Bool.false_ne_true
      rw [List.find?_cons_of_neg hmiss, ← hrest]
      cases hp : p r with
      | true => rw [List.filter_cons_of_pos hp, List.find?_cons_of_neg hmiss]
      | false => rw [List.filter_cons_of_neg (by rw [hp]; exact Bool.false_ne_true)]

/-! ## Generated keys -/

/-- The key an autoincrement column gives the next row: one above every key the table
holds and every key it has ever given out. -/
def nextKey (given : Int) (keys : List Int) : Int := keys.foldr max (max given 0) + 1

theorem nextKey_pos (given : Int) (keys : List Int) : 0 < nextKey given keys := by
  have h : 0 ≤ keys.foldr max (max given 0) := by
    induction keys with
    | nil => exact le_max_right _ _
    | cons k keys ih => exact ih.trans (le_max_right _ _)
  simp only [nextKey]
  omega

theorem lt_nextKey {given : Int} {keys : List Int} {k : Int} (hk : k ∈ keys) :
    k < nextKey given keys := by
  have h : k ≤ keys.foldr max (max given 0) := by
    induction keys with
    | nil => simp at hk
    | cons j keys ih =>
      obtain rfl | hk := List.mem_cons.mp hk
      · exact le_max_left _ _
      · exact (ih hk).trans (le_max_right _ _)
  simp only [nextKey]
  omega

/-- A generated key is above every key ever given out. -/
theorem given_lt_nextKey (given : Int) (keys : List Int) : given < nextKey given keys := by
  have h : given ≤ keys.foldr max (max given 0) := by
    induction keys with
    | nil => exact le_max_left _ _
    | cons k keys ih => exact ih.trans (le_max_right _ _)
  simp only [nextKey]
  omega

end Table
