import Omoikane.Html.LexerSteps

/-!
# Lookahead that is decided

`needsMoreInput` holds a step back while more input could change it.  When it
does not, the step reads the same of the input with anything behind it
(`step_extend`), with one exception: behind a doctype name, what is no letter is
never the start of a keyword, but the letters that follow are read in the same
step.  The state is then `BogusDoctype`, which skips letters anyway.
-/

namespace Omoikane.Html

open Base

/-! ## Reading while a predicate holds -/

section

variable {α : Type} {p : α → Bool} {xs : List α}

theorem takeWhile_append_of_ended (h : xs.dropWhile p ≠ []) (ys : List α) :
    (xs ++ ys).takeWhile p = xs.takeWhile p := by
  rw [List.takeWhile_append, if_neg]
  intro hlen
  have hboth := congrArg List.length (List.takeWhile_append_dropWhile (p := p) (l := xs))
  rw [List.length_append, hlen] at hboth
  exact h (List.length_eq_zero_iff.mp (by omega))

theorem dropWhile_append_of_ended (h : xs.dropWhile p ≠ []) (ys : List α) :
    (xs ++ ys).dropWhile p = xs.dropWhile p ++ ys := by
  rw [List.dropWhile_append, if_neg]
  rw [List.isEmpty_iff]
  exact h

end

/-! ## Character references -/

theorem consumeCharacterReference_append {rest : List InputCodePoint}
    (h : (rest.all fun point => isReferenceChar point.scalarView) = false)
    (more : List InputCodePoint) :
    consumeCharacterReference (rest ++ more) =
      ((consumeCharacterReference rest).1, (consumeCharacterReference rest).2 ++ more) := by
  have hdrop : (rest.dropWhile fun point => isReferenceChar point.scalarView) ≠ [] := by
    intro hnil
    rw [List.dropWhile_eq_nil_iff] at hnil
    rw [List.all_eq_true.mpr hnil] at h
    cases h
  simp only [consumeCharacterReference, takeWhile_append_of_ended hdrop,
    dropWhile_append_of_ended hdrop]
  obtain ⟨point, behind, hbehind⟩ := List.exists_cons_of_ne_nil hdrop
  simp only [hbehind, List.cons_append]
  by_cases hend : point.scalarView = ';'
  · simp only [hend, if_true]
    cases decodeReference _ with
    | ok decoded => rfl
    | error error => rfl
  · simp only [hend, if_false]

/-! ## Processing instructions -/

namespace ProcessingInstruction

/-- The end of an instruction is in the input. -/
def Ended (rest : List InputCodePoint) : Prop := ∃ point ∈ rest, point.scalarView = '>'

theorem Ended.tail {point : InputCodePoint} {rest : List InputCodePoint}
    (h : Ended (point :: rest)) (hpoint : point.scalarView ≠ '>') : Ended rest := by
  obtain ⟨q, hq, hclose⟩ := h
  rcases List.mem_cons.mp hq with rfl | hq
  · exact absurd hclose hpoint
  · exact ⟨q, hq, hclose⟩

theorem Ended.dropWhile {rest : List InputCodePoint} (h : Ended rest) (p : Char → Bool)
    (hp : p '>' = false) : Ended (rest.dropWhile fun point => p point.scalarView) := by
  induction rest with
  | nil => exact h
  | cons point rest ih =>
    rw [List.dropWhile_cons]
    split
    next hpoint =>
      refine ih (h.tail ?_)
      intro hclose
      rw [hclose, hp] at hpoint
      cases hpoint
    next => exact h

theorem Ended.ne_nil {rest : List InputCodePoint} (h : Ended rest) : rest ≠ [] := by
  rintro rfl
  obtain ⟨_, hmem, _⟩ := h
  cases hmem

theorem bogusData_append {rest : List InputCodePoint} (h : Ended rest)
    (more : List InputCodePoint) : ∀ data, bogusData data (rest ++ more) =
      ((bogusData data rest).1, (bogusData data rest).2 ++ more) := by
  induction rest with
  | nil => exact absurd rfl h.ne_nil
  | cons point rest ih =>
    intro data
    rw [List.cons_append, bogusData, bogusData]
    by_cases hclose : point.scalarView = '>'
    · rw [if_pos hclose, if_pos hclose]
    · rw [if_neg hclose, if_neg hclose]
      split
      all_goals exact ih (h.tail hclose) _

theorem instructionData_append {rest : List InputCodePoint} (h : Ended rest)
    (more : List InputCodePoint) : ∀ data, instructionData data (rest ++ more) =
      ((instructionData data rest).1, (instructionData data rest).2 ++ more) := by
  induction rest with
  | nil => exact absurd rfl h.ne_nil
  | cons point rest ih =>
    intro data
    by_cases hclose : point.scalarView = '>'
    · rw [List.cons_append, instructionData.eq_def, instructionData.eq_def data (point :: rest)]
      simp only [hclose, if_true]
    · have hrest := h.tail hclose
      obtain ⟨next, behind, rfl⟩ := List.exists_cons_of_ne_nil hrest.ne_nil
      rw [List.cons_append, List.cons_append, instructionData, instructionData, if_neg hclose,
        if_neg hclose]
      show (if point.scalarView = '?' ∧ next.scalarView = '>' then (some data, behind ++ more)
          else instructionData (data.pushCodePoint point) (next :: behind ++ more)) =
        ((if point.scalarView = '?' ∧ next.scalarView = '>' then (some data, behind)
          else instructionData (data.pushCodePoint point) (next :: behind)).1,
        (if point.scalarView = '?' ∧ next.scalarView = '>' then (some data, behind)
          else instructionData (data.pushCodePoint point) (next :: behind)).2 ++ more)
      split
      · rfl
      · exact ih hrest _

theorem bogusComment_append {rest : List InputCodePoint} (h : Ended rest) (target : Text)
    (more : List InputCodePoint) : bogusComment target (rest ++ more) =
      ((bogusComment target rest).1, (bogusComment target rest).2 ++ more) := by
  simp only [bogusComment, bogusData_append h more]

theorem consume_append {rest : List InputCodePoint} (h : Ended rest)
    (more : List InputCodePoint) : consume (rest ++ more) =
      ((consume rest).1, (consume rest).2.1, (consume rest).2.2 ++ more) := by
  have htarget := h.dropWhile isTargetChar rfl
  have hdata := htarget.dropWhile isHtmlWhitespace rfl
  have hbogus : ∀ target, bogusComment target (rest ++ more) =
      ((bogusComment target rest).1, (bogusComment target rest).2 ++ more) :=
    fun target => bogusComment_append h target more
  have hbogusTarget := fun target => bogusComment_append htarget target more
  have hinstruction := instructionData_append hdata more {}
  obtain ⟨first, tail, rfl⟩ := List.exists_cons_of_ne_nil h.ne_nil
  obtain ⟨delimiter, after, hafter⟩ := List.exists_cons_of_ne_nil htarget.ne_nil
  rw [List.cons_append] at hbogus
  rw [← dropWhile_append_of_ended hdata.ne_nil] at hinstruction
  have htake := takeWhile_append_of_ended htarget.ne_nil more
  have hdrop := dropWhile_append_of_ended htarget.ne_nil more
  rw [List.cons_append] at htake hdrop
  simp only [consume, List.cons_append]
  by_cases hfirst : (!first.scalarView.isAlpha && first.scalarView != '_') = true
  · rw [if_pos hfirst, if_pos hfirst, hbogus]
  · rw [if_neg hfirst, if_neg hfirst, htake, hdrop]
    simp only [hafter, List.cons_append] at hbogusTarget hinstruction ⊢
    split
    · rw [hbogusTarget]
    split
    · rw [hbogusTarget]
    · rw [hinstruction]
      cases (instructionData {} ((delimiter :: after).dropWhile fun point =>
        isHtmlWhitespace point.scalarView)).1 with
      | none => rfl
      | some data => rfl

end ProcessingInstruction

/-! ## Doctype keywords -/

/-- More input only lets a keyword grow by the letters that follow. -/
theorem gatherKeyword_append (rest more : List InputCodePoint) : ∀ keyword,
    ∃ letters behind, (gatherKeyword keyword rest).2 ++ more = letters ++ behind ∧
      (∀ point ∈ letters, point.scalarView.isAlpha = true) ∧
      (gatherKeyword keyword (rest ++ more)).2 = behind := by
  have hmore : ∀ points : List InputCodePoint, ∀ keyword, ∃ letters,
      points = letters ++ (gatherKeyword keyword points).2 ∧
        ∀ point ∈ letters, point.scalarView.isAlpha = true := by
    intro points
    induction points with
    | nil =>
      intro keyword
      exact ⟨[], rfl, by simp⟩
    | cons point points ih =>
      intro keyword
      rw [gatherKeyword]
      split
      next hletter =>
        obtain ⟨letters, hsplit, hletters⟩ := ih (keyword ++ [point.scalarView])
        refine ⟨point :: letters, ?_, ?_⟩
        · rw [List.cons_append, ← hsplit]
        · intro q hq
          rcases List.mem_cons.mp hq with rfl | hq
          · exact hletter.2
          · exact hletters q hq
      next => exact ⟨[], rfl, by simp⟩
  induction rest with
  | nil =>
    intro keyword
    obtain ⟨letters, hsplit, hletters⟩ := hmore more keyword
    exact ⟨letters, _, hsplit, hletters, rfl⟩
  | cons point rest ih =>
    intro keyword
    rw [List.cons_append, gatherKeyword, gatherKeyword]
    split
    next => exact ih (keyword ++ [point.scalarView])
    next => exact ⟨[], _, rfl, by simp, rfl⟩

/-- A keyword of letters is decided by six of them, or by what is no letter. -/
theorem gatherKeyword_decided (rest more : List InputCodePoint) : ∀ keyword,
    6 ≤ Text.utf8Len keyword + rest.length ∨
      (∃ point ∈ rest, point.scalarView.isAlpha = false) →
    gatherKeyword keyword (rest ++ more) =
      ((gatherKeyword keyword rest).1, (gatherKeyword keyword rest).2 ++ more) := by
  induction rest with
  | nil =>
    intro keyword h
    rcases h with hlen | ⟨_, hmem, _⟩
    · have hfull : ¬ Text.utf8Len keyword < 6 := Nat.not_lt.mpr hlen
      cases more with
      | nil => rfl
      | cons point more =>
        have hstop : ¬ (Text.utf8Len keyword < 6 ∧ point.scalarView.isAlpha = true) :=
          fun hgrow => hfull hgrow.1
        show gatherKeyword keyword (point :: more) = (keyword, point :: more)
        rw [gatherKeyword, if_neg hstop]
    · cases hmem
  | cons point rest ih =>
    intro keyword h
    rw [List.cons_append, gatherKeyword, gatherKeyword]
    split
    next hletter =>
      apply ih
      rcases h with hlen | ⟨q, hq, hother⟩
      · refine .inl ?_
        have hsize := Char.utf8Size_pos point.scalarView
        simp only [Text.utf8Len, List.map_append, List.sum_append, List.map_cons, List.map_nil,
          List.sum_cons, List.sum_nil, List.length_cons] at hlen ⊢
        omega
      · rcases List.mem_cons.mp hq with rfl | hq
        · rw [hletter.2] at hother
          cases hother
        · exact .inr ⟨q, hq, hother⟩
    next => rfl

theorem gatherKeyword_head (rest : List InputCodePoint) : ∀ keyword,
    ∃ tail, (gatherKeyword keyword rest).1 = keyword ++ tail := by
  induction rest with
  | nil =>
    intro keyword
    exact ⟨[], (List.append_nil keyword).symm⟩
  | cons point rest ih =>
    intro keyword
    rw [gatherKeyword]
    split
    · obtain ⟨tail, htail⟩ := ih (keyword ++ [point.scalarView])
      exact ⟨point.scalarView :: tail, by rw [htail, List.append_assoc]; rfl⟩
    · exact ⟨[], (List.append_nil keyword).symm⟩

theorem isAlpha_of_toLower {ch : Char} (h : ch.toLower.isAlpha = true) : ch.isAlpha = true := by
  unfold Char.toLower at h
  split at h
  next hupper =>
    have hrange : ch.isUpper = true := by
      simp only [Char.isUpper, ge_iff_le, decide_eq_true_eq]
      exact hupper
    rw [Char.isAlpha, hrange, Bool.true_or]
  next => exact h

/-- What does not begin with a letter is no keyword. -/
theorem gatherKeyword_ne {ch : Char} (hch : ch.isAlpha = false) (rest : List InputCodePoint)
    {word : Text} {c : Char} {cs : Text} (hword : Text.toAsciiLowercase word = c :: cs)
    (hc : c.isAlpha = true) : ¬ Text.eqIgnoreAsciiCase (gatherKeyword [ch] rest).1 word = true := by
  intro heq
  obtain ⟨tail, htail⟩ := gatherKeyword_head rest [ch]
  rw [Text.eqIgnoreAsciiCase_iff, htail, hword] at heq
  have hhead : ch.toLower = c := (List.cons.inj heq).1
  rw [← hhead] at hc
  rw [isAlpha_of_toLower hc] at hch
  cases hch

/-! ## The step -/

/-- A step with more input behind what it leaves. -/
def Stepped.appendRest (stepped : Stepped) (more : List InputCodePoint) : Stepped :=
  { stepped with rest := stepped.rest ++ more }

theorem Turn.over_append (turn : Turn) (point : InputCodePoint) (rest more : List InputCodePoint) :
    turn.over point (rest ++ more) = (turn.over point rest).appendRest more := by
  unfold Turn.over Stepped.appendRest
  cases turn.reconsume <;> rfl

/-- What a step does when more input follows: the same, except that a bogus
doctype may have been read further. -/
inductive Extends (stepped : Stepped) (more : List InputCodePoint) : Stepped → Prop
  | same : Extends stepped more (stepped.appendRest more)
  | letters {letters behind : List InputCodePoint} : stepped.state = .bogusDoctype →
      stepped.emits.any Emit.isToken = false → stepped.rest ++ more = letters ++ behind →
      (∀ point ∈ letters, point.scalarView.isAlpha = true) →
      Extends stepped more { stepped with rest := behind }

theorem referenceInText_append {rest : List InputCodePoint}
    (h : (rest.all fun point => isReferenceChar point.scalarView) = false) (state : State)
    (r : Registers) (more : List InputCodePoint) :
    referenceInText state r (rest ++ more) = (referenceInText state r rest).appendRest more := by
  simp only [referenceInText, consumeCharacterReference_append h more]
  split <;> rfl

theorem referenceInAttribute_append {rest : List InputCodePoint}
    (h : (rest.all fun point => isReferenceChar point.scalarView) = false) (state : State)
    (r : Registers) (more : List InputCodePoint) :
    referenceInAttribute state r (rest ++ more) =
      (referenceInAttribute state r rest).appendRest more := by
  simp only [referenceInAttribute, consumeCharacterReference_append h more]
  split <;> rfl

theorem processingInstruction_append {rest : List InputCodePoint}
    (h : ProcessingInstruction.Ended rest) (r : Registers) (more : List InputCodePoint) :
    processingInstruction r (rest ++ more) = (processingInstruction r rest).appendRest more := by
  simp only [processingInstruction, ProcessingInstruction.consume_append h more]
  rfl

theorem markupDeclarationOpen_append {r : Registers} {point : InputCodePoint}
    {rest : List InputCodePoint}
    (h : needsMoreInput .markupDeclarationOpen point.scalarView (point :: rest) = false)
    (more : List InputCodePoint) :
    markupDeclarationOpen r point (rest ++ more) =
      (markupDeclarationOpen r point rest).appendRest more := by
  by_cases hdash : point.scalarView = '-'
  · have hne : rest ≠ [] := by
      rintro rfl
      simp [needsMoreInput, hdash] at h
    obtain ⟨next, behind, rfl⟩ := List.exists_cons_of_ne_nil hne
    have hd : ¬ point.scalarView.toLower = 'd' := by
      rw [hdash]
      decide
    simp only [markupDeclarationOpen, hdash, true_and, List.cons_append, List.head?_cons,
      List.tail_cons]
    split
    · rfl
    · rw [if_neg (by rw [← hdash]; exact hd), if_neg (by rw [← hdash]; exact hd)]
      exact Turn.over_append _ point (next :: behind) more
  · simp only [markupDeclarationOpen, hdash, false_and, if_false]
    split
    next hd =>
      have hlen : 6 ≤ rest.length := by
        simp [needsMoreInput, hdash, hd] at h
        omega
      have htake : (rest ++ more).take 6 = rest.take 6 := List.take_append_of_le_length hlen
      have hdrop : (rest ++ more).drop 6 = rest.drop 6 ++ more :=
        List.drop_append_of_le_length hlen
      have hshort : ¬ rest.length < 6 := by omega
      have hlong : ¬ (rest ++ more).length < 6 := by
        rw [List.length_append]
        omega
      rw [htake, hdrop, if_neg hshort, if_neg hlong]
      split <;> rfl
    next => exact Turn.over_append _ point rest more

theorem doctypeKeyword_extends {r : Registers} {point : InputCodePoint}
    {rest : List InputCodePoint}
    (hspace : isHtmlWhitespace point.scalarView = false) (hclose : point.scalarView ≠ '>')
    (h : needsMoreInput .afterDoctypeName point.scalarView (point :: rest) = false)
    (more : List InputCodePoint) :
    Extends (doctypeKeyword r point rest) more (doctypeKeyword r point (rest ++ more)) := by
  have hbogus : ∀ behind, (stepPoint .afterDoctypeName r point).over point behind =
      ⟨.bogusDoctype, { r with currentDoctypeForceQuirks := true }, [.error .invalidDoctype],
        behind⟩ := by
    intro behind
    simp only [stepPoint, hspace, hclose, Turn.over, if_false, Bool.false_eq_true]
  cases hletter : point.scalarView.isAlpha with
  | false =>
    have hpublic : ∀ points, ¬ Text.eqIgnoreAsciiCase
        (gatherKeyword [point.scalarView] points).1 "public".toList = true :=
      fun points => gatherKeyword_ne hletter points rfl rfl
    have hsystem : ∀ points, ¬ Text.eqIgnoreAsciiCase
        (gatherKeyword [point.scalarView] points).1 "system".toList = true :=
      fun points => gatherKeyword_ne hletter points rfl rfl
    obtain ⟨letters, behind, hsplit, hletters, hmore⟩ :=
      gatherKeyword_append rest more [point.scalarView]
    simp only [doctypeKeyword, if_neg (hpublic _), if_neg (hsystem _), hbogus, hmore]
    exact .letters rfl rfl hsplit hletters
  | true =>
    have hdecided : 6 ≤ Text.utf8Len [point.scalarView] + rest.length ∨
        ∃ q ∈ rest, q.scalarView.isAlpha = false := by
      have hsize : Text.utf8Len [point.scalarView] = point.scalarView.utf8Size := rfl
      have hpos := Char.utf8Size_pos point.scalarView
      by_cases hlen : rest.length + 1 < 6
      · refine .inr ?_
        simp only [needsMoreInput, hspace, hletter, List.length_cons, List.all_cons, hlen,
          Bool.not_false, Bool.true_and, decide_true, bne_iff_ne.mpr hclose] at h
        simpa using h
      · refine .inl ?_
        omega
    have hgather := gatherKeyword_decided rest more [point.scalarView] hdecided
    simp only [doctypeKeyword, hgather]
    split
    · exact .same
    split
    · exact .same
    · rw [Turn.over_append]
      exact .same

theorem step_extends {state : State} {r : Registers} {point : InputCodePoint}
    {rest : List InputCodePoint}
    (h : needsMoreInput state point.scalarView (point :: rest) = false)
    (more : List InputCodePoint) :
    Extends (step state r point rest) more (step state r point (rest ++ more)) := by
  have hpoint : Extends ((stepPoint state r point).over point rest) more
      ((stepPoint state r point).over point (rest ++ more)) := by
    rw [Turn.over_append]
    exact .same
  cases state
  case data | rcData =>
    simp only [step]
    split
    next hch =>
      simp only [needsMoreInput, hch, true_and, or_true, if_true, List.tail_cons, reduceCtorEq,
        or_false] at h
      rw [referenceInText_append h]
      exact .same
    next => exact hpoint
  case attributeValueDoubleQuoted | attributeValueSingleQuoted | attributeValueUnquoted =>
    simp only [step]
    split
    next hch =>
      simp only [needsMoreInput, hch, true_and, or_true, if_true, List.tail_cons, reduceCtorEq,
        or_false] at h
      rw [referenceInAttribute_append h]
      exact .same
    next => exact hpoint
  case tagOpen =>
    simp only [step]
    split
    next hch =>
      have hended : ProcessingInstruction.Ended rest := by
        simp only [needsMoreInput, hch, beq_self_eq_true, Bool.true_and, Bool.not_eq_false',
          List.contains_iff_mem, reduceCtorEq, or_self, and_false, if_false] at h
        rcases List.mem_cons.mp h with hp | hmem
        · rw [← hp] at hch
          exact absurd hch (by decide)
        · exact ⟨_, hmem, rfl⟩
      rw [processingInstruction_append hended]
      exact .same
    next => exact hpoint
  case markupDeclarationOpen =>
    show Extends (markupDeclarationOpen r point rest) more
      (markupDeclarationOpen r point (rest ++ more))
    rw [markupDeclarationOpen_append h]
    exact .same
  case afterDoctypeName =>
    simp only [step]
    split
    next => exact hpoint
    next hch =>
      obtain ⟨hspace, hclose⟩ := Bool.or_eq_false_iff.mp (Bool.eq_false_iff.mpr hch)
      exact doctypeKeyword_extends hspace (beq_eq_false_iff_ne.mp hclose) h more
  all_goals exact hpoint

end Omoikane.Html
