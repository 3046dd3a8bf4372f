import AcademiaCr.Library.Returns
import AcademiaCr.Academia.BufferSizes
import AcademiaCr.Academia.Menus

/-!
# The texts that the server answers

Whatever the system calls return, an answer to a request is a text of at least one and less than
1024 characters, so that the client, which takes an empty message for an error, shows it.

## Main definitions

- `Shown`: the texts that the client shows
- `shown_of_yields`: all answers are such texts
-/

namespace AcademiaCr.Academia

open CLang CLang.CString Resumption Prog

/-! ## Texts that are not empty -/

/-- The texts that `read_with_length` of the client accepts from the server. -/
def Shown (text : CString) : Prop := text ≠ .empty ∧ text.length < 1024

instance : DecidablePred Shown := fun _ => inferInstanceAs (Decidable (_ ∧ _))

theorem length_pos_of_ne {text : CString} (h : text ≠ .empty) : 0 < text.length :=
  List.length_pos_iff.mpr fun hnil => h (Subtype.ext hnil)

theorem ne_of_length_pos {text : CString} (h : 0 < text.length) : text ≠ .empty := by
  rintro rfl
  exact Nat.lt_irrefl 0 h

theorem truncate_ne {size : Nat} {text : CString} (h : text ≠ .empty) (hsize : 1 < size) :
    text.truncate size ≠ .empty := by
  have hpos := length_pos_of_ne h
  apply ne_of_length_pos
  rw [length_truncate]
  omega

theorem append_ne {s t : CString} (h : s ≠ .empty ∨ t ≠ .empty) : s.append t ≠ .empty := by
  apply ne_of_length_pos
  rw [length_append]
  obtain h | h := h <;> have hpos := length_pos_of_ne h <;> omega

theorem formatted_ne {piece : CString} (h : piece ≠ .empty) (rest : List CString) :
    formatted (piece :: rest) ≠ .empty := by
  have hpos := length_pos_of_ne h
  apply ne_of_length_pos
  rw [length_formatted, List.map_cons, List.sum_cons]
  omega

theorem shown_formatted {piece : CString} {rest : List CString} (h : piece ≠ .empty)
    (hlength : ((piece :: rest).map length).sum < 1024) : Shown (formatted (piece :: rest)) :=
  ⟨formatted_ne h rest, (length_formatted _).trans_lt hlength⟩

/-- `temp_response`. -/
theorem shown_respond {text : CString} (h : text ≠ .empty) : Shown (respond text) := by
  refine ⟨truncate_ne h (by decide), ?_⟩
  rw [respond, length_truncate]
  omega

/-! ## Listings -/

/-- What a listing has so far, if memory has not run out. -/
def Begun {κ : Type} (out : Option (Nat × CString × κ)) : Prop := ∀ x ∈ out, x.2.1 ≠ .empty

/-- A listing that has been returned. -/
def Filled (listing : Option CString) : Prop := ∀ text ∈ listing, text ≠ .empty

section Listings

variable {result info : CString}

theorem always_appendText (bufferSize : Nat) (h : result ≠ .empty ∨ info ≠ .empty) :
    (appendText bufferSize result info).Always fun out => ∀ x ∈ out, x.2 ≠ .empty := by
  have hnext : ∀ size : Nat, ∀ x ∈ some (size, result.append info), x.2 ≠ .empty := by
    rintro size x hx
    cases hx
    exact append_ne h
  rw [appendText]
  split
  · refine always_bind (always_true _) fun grown _ => ?_
    split
    · exact always_ret (hnext _)
    · exact always_ret fun x hx => by cases hx
  · exact always_ret (hnext _)

theorem always_appendLines {ρ : Type} (fmt : Format ρ) (records : List ρ) (bufferSize : Nat)
    (count : Nat) (h : result ≠ .empty) :
    (appendLines fmt records bufferSize result count).Always Begun := by
  induction records generalizing bufferSize result count with
  | nil =>
    refine always_ret fun x hx => ?_
    cases hx
    exact h
  | cons r rest ih =>
    rw [appendLines]
    refine always_bind (always_true _) fun shown _ => ?_
    split
    · refine always_bind (always_true _) fun line _ => ?_
      refine always_bind (always_appendText bufferSize (.inl h)) fun out hout => ?_
      split
      · exact always_ret fun x hx => by cases hx
      · exact ih _ _ (hout _ rfl)
    · exact ih _ _ h

theorem always_appendNone (noneText : CString) (bufferSize : Nat) (count : Nat)
    (h : result ≠ .empty) :
    (appendNone noneText bufferSize result count).Always fun out => ∀ x ∈ out, x.2 ≠ .empty := by
  rw [appendNone]
  split
  · exact always_appendText bufferSize (.inl h)
  · refine always_ret fun x hx => ?_
    cases hx
    exact h

theorem always_release {α : Type} {post : α → Prop} {code : α} (h : post code) :
    (release code).Always post :=
  always_bind (always_true _) fun _ _ => always_ret h

theorem always_finishText {out : Option (Nat × CString)} (h : ∀ x ∈ out, x.2 ≠ .empty) :
    (finishText out).Always Filled := by
  cases out with
  | none => exact always_release fun text htext => by cases htext
  | some x =>
    refine always_release fun text htext => ?_
    cases htext
    exact h x rfl

/-- A view that starts with `sem_wait` and `malloc`. -/
theorem always_view {f : FileName} {body : Nat → FileOp (Option CString)}
    (h : ∀ fd, (body fd).Always Filled) :
    (withFile f false none fun fd => do
      perform .semWait
      if ← perform .malloc then body fd else release none).Always Filled := by
  have hnone : Filled none := fun text htext => by cases htext
  refine always_bind (always_true _) fun fd _ => ?_
  cases fd with
  | none => exact always_ret hnone
  | some fd =>
    refine always_bind (always_true _) fun _ _ => always_bind (always_true _) fun room _ => ?_
    split
    · exact h fd
    · exact always_release hnone

theorem always_listing {f : FileName} {fmt : Format f.Record} (h : fmt.header ≠ .empty) :
    (listing f fmt).Always Filled := by
  refine always_view fun fd => always_bind (always_true _) fun records _ => ?_
  refine always_bind (always_appendLines fmt records 2048 1 h) fun out hout => ?_
  split
  · exact always_release fun text htext => by cases htext
  · exact always_bind (always_appendNone fmt.noneText _ _ (hout _ rfl)) fun _ => always_finishText

theorem always_viewEnrolledCourses (studentId : CString) :
    (viewEnrolledCourses studentId).Always Filled := by
  refine always_view fun fd => always_bind (always_true _) fun records _ => ?_
  refine always_bind (always_true _) fun found _ => ?_
  split
  · refine always_bind ?_ fun _ => always_finishText
    have hheader : Format.slots.header ≠ .empty := by decide +kernel
    refine always_bind (always_appendLines Format.slots _ 2048 1 hheader) fun out hout => ?_
    split
    · exact always_ret fun x hx => by cases hx
    · exact always_appendNone _ _ _ (hout _ rfl)
  · exact always_bind (always_appendText 2048 (.inr (by decide +kernel))) fun _ => always_finishText

end Listings

/-! ## Answers -/

theorem shown_respondCode {success failure : String} (ret : Int)
    (hsuccess : CString.ofString success ≠ .empty) (hfailure : CString.ofString failure ≠ .empty) :
    Shown (respondCode success failure ret) := by
  rw [respondCode]
  split
  · exact shown_respond hsuccess
  · exact shown_respond hfailure

theorem shown_respondListing {failure : String} (h : CString.ofString failure ≠ .empty)
    {listing : Option CString} (hlisting : Filled listing) :
    Shown (respondListing failure listing) := by
  cases listing with
  | none => exact shown_respond h
  | some text => exact shown_respond (hlisting text rfl)

theorem always_code {p : FileOp Int} {success failure : String}
    (hsuccess : CString.ofString success ≠ .empty) (hfailure : CString.ofString failure ≠ .empty) :
    (p.bind fun ret => .ret (respondCode success failure ret)).Always Shown :=
  always_bind (always_true _) fun ret _ => always_ret (shown_respondCode ret hsuccess hfailure)

theorem always_answer {p : FileOp (Option CString)} {failure : String} (hp : p.Always Filled)
    (h : CString.ofString failure ≠ .empty) :
    (p.bind fun listing => .ret (respondListing failure listing)).Always Shown :=
  always_bind hp fun _ hlisting => always_ret (shown_respondListing h hlisting)

theorem always_program (userId : CString) (request : Request) :
    (request.program userId).Always Shown := by
  cases request with
  | addStudent | addFaculty =>
    refine always_bind (always_true _) fun ret _ => ?_
    split
    · exact always_code (by decide +kernel) (by decide +kernel)
    · exact always_ret (shown_respondCode ret (by decide +kernel) (by decide +kernel))
  | activateStudent | blockStudent | modifyStudent | modifyFaculty | addCourse | removeCourse
  | updateCourse | changePassword => exact always_code (by decide +kernel) (by decide +kernel)
  | viewStudents | viewFaculty | viewCourses =>
    exact always_answer (always_listing (by decide +kernel)) (by decide +kernel)
  | viewOffering =>
    have hheader : CString.ofString "Courses Offered by Faculty " ≠ .empty := by decide +kernel
    refine always_answer (always_listing ?_) (by decide +kernel)
    exact truncate_ne (formatted_ne hheader _) (by decide)
  | viewEnrolled => exact always_answer (always_viewEnrolledCourses userId) (by decide +kernel)
  | enroll courseId =>
    refine always_bind (always_true _) fun ret _ => always_ret (shown_respond ?_)
    split_ifs <;> decide +kernel
  | drop courseId =>
    refine always_bind (always_true _) fun ret _ => always_ret (shown_respond ?_)
    split_ifs <;> decide +kernel
  | invalid => exact always_ret (shown_respond (by decide +kernel))

/-- Whatever the system calls return, the answer to a request is a text that the client shows. -/
theorem shown_of_yields {userId text : CString} {request : Request}
    (h : (request.program userId).Yields text) : Shown text :=
  h.of_always (always_program userId request)

end AcademiaCr.Academia
