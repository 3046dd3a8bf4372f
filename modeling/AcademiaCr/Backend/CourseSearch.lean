import AcademiaCr.Backend.CourseResults
import AcademiaCr.Backend.Selections

/-!
# Course search

`search` puts the query between two `%` and leaves the wildcards in the query as they are.
A query without wildcards is searched for as a substring; one with wildcards also finds the
courses that contain an instance of it.

## Main definitions

- `Contains`, `Course.Mentions`: the texts of a course contain the query
- `Course.MentionsInstance`: they contain what the query stands for as a pattern
- `SubstringSearch`: the courses found are those that mention the query
- `substringSearch_iff`: when they are
-/

namespace AcademiaCr.Backend

open Transition Wildcard

/-- The text contains the query, letter case apart. -/
def Contains (text query : String) : Prop :=
  query.toList.map Char.toLower <:+: text.toList.map Char.toLower

/-- The text contains an instance of the query, in which any text stands in the place of `%`
and any one character in the place of `_`. -/
def ContainsInstance (text query : String) : Prop :=
  ∃ part, part <:+: text.toList ∧
    accepts Char.toLower (query.toList.map likeItem) part = true

namespace Course

/-- The texts that a search looks at. -/
def texts (course : Course) : List String :=
  [course.courseCode, course.courseName, course.facultyName]

def Mentions (course : Course) (query : String) : Prop := ∃ text ∈ course.texts, Contains text query

def MentionsInstance (course : Course) (query : String) : Prop :=
  ∃ text ∈ course.texts, ContainsInstance text query

end Course

/-- A search returns the courses that mention the query, in the order of their codes. -/
structure SubstringSearch (now : Int) (query : String) (conn : Conn) : Prop where
  ordered : (conn.run now (CourseRepository.search query)).1.Pairwise
    fun a b => a.courseCode < b.courseCode
  found : ∀ course, course ∈ (conn.run now (CourseRepository.search query)).1 ↔
    ∃ row ∈ conn.db.courses, conn.db.course row = course ∧ course.Mentions query
  unowned : ∀ row ∈ conn.db.courses, row.facultyId = none →
    Contains row.courseCode query ∨ Contains row.courseName query →
    conn.db.course row ∈ (conn.run now (CourseRepository.search query)).1
  listed : ∀ course ∈ (conn.run now (CourseRepository.search query)).1,
    course ∈ (conn.run now CourseRepository.findAll).1

/-! ## Patterns -/

theorem likeItem_cases (c : Char) :
    likeItem c = .many ∨ likeItem c = .one ∨ likeItem c = .lit c := by
  unfold likeItem
  split <;> simp

/-- A query without wildcards stands for itself. -/
theorem likeItem_of_plain {c : Char} (h : c ≠ '%' ∧ c ≠ '_') : likeItem c = .lit c := by
  unfold likeItem
  split
  · exact absurd rfl h.1
  · exact absurd rfl h.2
  · rfl

theorem like_search_iff {text query : String} :
    like ("%" ++ query ++ "%") text = true ↔ ContainsInstance text query := by
  have hpattern : ("%" ++ query ++ "%").toList.map likeItem =
      .many :: (query.toList.map likeItem ++ [.many]) := by
    simp [String.toList_append, likeItem]
  rw [like, hpattern, accepts_anywhere_iff, ContainsInstance]

/-- What contains the query contains an instance of it. -/
theorem Contains.toInstance {text query : String} (h : Contains text query) :
    ContainsInstance text query := by
  obtain ⟨part, hpart, hfold⟩ := infix_map_iff.mp h
  exact ⟨part, hpart, accepts_of_map_eq likeItem_cases hfold⟩

/-- The only instance of a query without wildcards is the query. -/
theorem contains_of_plain {text query : String} (hq : ∀ c ∈ query.toList, c ≠ '%' ∧ c ≠ '_')
    (h : ContainsInstance text query) : Contains text query := by
  obtain ⟨part, hpart, hfold⟩ := h
  have hlit : query.toList.map likeItem = query.toList.map .lit :=
    List.map_congr_left fun c hc => likeItem_of_plain (hq c hc)
  rw [hlit, accepts_literal_iff] at hfold
  exact infix_map_iff.mpr ⟨part, hpart, hfold⟩

/-- An instance of a query that may be empty is in every text. -/
theorem ContainsInstance.of_empty {query : String} (h : ContainsInstance "" query)
    (text : String) : ContainsInstance text query := by
  obtain ⟨part, hpart, hfold⟩ := h
  have hnil : part = [] := List.infix_nil.mp hpart
  exact ⟨part, hnil ▸ List.nil_infix, hfold⟩

/-! ## The statement -/

theorem or3_eq_some_true_iff {a b : Option Bool} :
    or3 a b = some true ↔ a = some true ∨ b = some true := by
  rcases a with _ | _ | _ <;> rcases b with _ | _ | _ <;> decide

theorem nulFree_pattern {query : String} (hq : NulFree query) :
    bindText ("%" ++ query ++ "%") = "%" ++ query ++ "%" := by
  refine bindText_of_nulFree fun hmem => ?_
  rw [String.toList_append, String.toList_append, List.mem_append, List.mem_append] at hmem
  obtain (h | h) | h := hmem
  · exact absurd h (by decide)
  · exact hq h
  · exact absurd h (by decide)

section

variable {now : Int} {conn : Conn} {query : String}

/-- The condition of the statement, `NULL` included, is that the course mentions an instance. -/
theorem where_iff (hq : NulFree query) (db : Db) (row : CourseRow) :
    or3 (or3 (some (like (bindText ("%" ++ query ++ "%")) row.courseCode))
        (some (like (bindText ("%" ++ query ++ "%")) row.courseName)))
        ((db.owner row).map fun u => like (bindText ("%" ++ query ++ "%")) u.name) = some true ↔
      (db.course row).MentionsInstance query := by
  have htexts : (db.course row).texts =
      [row.courseCode, row.courseName, ((db.owner row).map (·.name)).getD ""] := rfl
  rw [nulFree_pattern hq, or3_eq_some_true_iff, or3_eq_some_true_iff, Option.some_inj,
    Option.some_inj, like_search_iff, like_search_iff, Course.MentionsInstance, htexts]
  simp only [List.mem_cons, List.not_mem_nil, or_false, exists_eq_or_imp, exists_eq_left,
    or_assoc]
  cases db.owner row with
  | none =>
    -- the name of a missing owner reads as empty, where an instance is one of the code as well
    have hempty : ContainsInstance "" query → ContainsInstance row.courseCode query :=
      fun h => h.of_empty _
    simp only [Option.map_none, reduceCtorEq, or_false, Option.getD_none]
    tauto
  | some u => rw [Option.map_some, Option.some_inj, like_search_iff]; rfl

theorem mem_search (hv : conn.db.Valid) (hq : NulFree query) {course : Course} :
    course ∈ (conn.run now (CourseRepository.search query)).1 ↔
      ∃ row ∈ conn.db.courses, conn.db.course row = course ∧ course.MentionsInstance query := by
  refine (Db.mem_selectCourses hv).trans (exists_congr fun row => and_congr_right fun _ => ?_)
  rw [decide_eq_true_eq, where_iff hq, and_comm]
  exact and_congr_right fun hcourse => by rw [hcourse]

/-- A search that finds only courses with the query finds all of them, in order. -/
theorem substringSearch_of_mentions (hv : conn.db.Valid) (hq : NulFree query)
    (h : ∀ row ∈ conn.db.courses, (conn.db.course row).MentionsInstance query →
      (conn.db.course row).Mentions query) : SubstringSearch now query conn := by
  have hfound : ∀ course, course ∈ (conn.run now (CourseRepository.search query)).1 ↔
      ∃ row ∈ conn.db.courses, conn.db.course row = course ∧ course.Mentions query := by
    intro course
    rw [mem_search hv hq]
    refine exists_congr fun row => and_congr_right fun hrow => and_congr_right fun hcourse => ?_
    constructor
    · intro hinstance
      exact hcourse ▸ h row hrow (hcourse ▸ hinstance)
    · intro ⟨text, htext, hcontains⟩
      exact ⟨text, htext, hcontains.toInstance⟩
  refine { ordered := Db.selectCourses_strict hv _, found := hfound,
           unowned := fun row hrow _ htext => ?_, listed := fun course hcourse => ?_ }
  · refine (hfound _).mpr ⟨row, hrow, rfl, ?_⟩
    obtain hcode | hname := htext
    · exact ⟨row.courseCode, List.mem_cons_self, hcode⟩
    · exact ⟨row.courseName, List.mem_cons_of_mem _ List.mem_cons_self, hname⟩
  · obtain ⟨row, hrow, rfl, -⟩ := (hfound course).mp hcourse
    exact (Db.mem_selectCourses hv).mpr ⟨row, hrow, rfl, rfl⟩

theorem SubstringSearch.mentions (hv : conn.db.Valid) (hq : NulFree query)
    (h : SubstringSearch now query conn) {row : CourseRow} (hrow : row ∈ conn.db.courses)
    (hinstance : (conn.db.course row).MentionsInstance query) :
    (conn.db.course row).Mentions query := by
  obtain ⟨_, -, -, hmentions⟩ :=
    (h.found (conn.db.course row)).mp ((mem_search hv hq).mpr ⟨row, hrow, rfl, hinstance⟩)
  exact hmentions

/-- A query without wildcards is searched for as a substring, whatever the tables. -/
theorem substringSearch_of_plain (hv : conn.db.Valid) (hq : NulFree query)
    (hplain : ∀ c ∈ query.toList, c ≠ '%' ∧ c ≠ '_') : SubstringSearch now query conn := by
  refine substringSearch_of_mentions hv hq fun row _ hinstance => ?_
  obtain ⟨text, htext, hinstance⟩ := hinstance
  exact ⟨text, htext, contains_of_plain hplain hinstance⟩

/-- On any tables, a query is searched for as a substring if and only if every course that
mentions an instance of it mentions the query. -/
theorem substringSearch_iff (hv : conn.db.Valid) (hq : NulFree query) (now : Int) :
    SubstringSearch now query conn ↔ ∀ row ∈ conn.db.courses,
      (conn.db.course row).MentionsInstance query → (conn.db.course row).Mentions query :=
  ⟨fun h _ hrow => h.mentions hv hq hrow, substringSearch_of_mentions hv hq⟩

end

/-! ## The seeded courses -/

theorem startup_valid : (startup true).db.Valid :=
  (Reachable.sound (s := Api.start true 0) ⟨true, 0, [], Run.start⟩).valid

theorem programming_found : SubstringSearch 0 "Programming" (startup true) := by
  have hplain : "Programming".toList.all (fun c => c ≠ '%' ∧ c ≠ '_') = true := by decide
  exact (substringSearch_iff startup_valid (by decide) 0).mpr fun _ _ ⟨text, htext, hinstance⟩ =>
    ⟨text, htext, contains_of_plain (fun c hc => of_decide_eq_true
      (List.all_eq_true.mp hplain c hc)) hinstance⟩

/-- A search for an underscore finds a course without one. -/
theorem underscore_finds_all : ¬ ∀ (now : Int) (conn : Conn) (query : String), conn.db.Valid →
    NulFree query → SubstringSearch now query conn := by
  intro h
  have hnulFree : NulFree "_" := by decide
  have hsearch := h 0 (startup true) "_" startup_valid hnulFree
  have hrow : ∃ row ∈ (startup true).db.courses,
      like "%_%" row.courseCode = true ∧ ∀ text ∈ ((startup true).db.course row).texts,
        ¬ ['_'] <:+: text.toList.map Char.toLower := by decide +kernel
  obtain ⟨row, hrow, hlike, hnone⟩ := hrow
  obtain ⟨text, htext, hcontains⟩ := hsearch.mentions startup_valid hnulFree hrow
    ⟨row.courseCode, List.mem_cons_self, like_search_iff.mp hlike⟩
  exact hnone text htext hcontains

end AcademiaCr.Backend
