import Omoikane.Css.MediaConditions

/-!
# Lists of media queries

A list is cut at the commas that stand outside of parentheses, quotes and comments.  A member that leaves
nothing open is cut out as it is, whether it can be parsed or not, so that a list matches if and only if
one of its members does (`mediaQueryListMatches_join`).
-/

namespace Omoikane.Css.Media

open Base

/-! ## Trimming -/

theorem trim_append_blank {text blanks : Text} (h : ∀ ch ∈ blanks, Text.isWhitespace ch = true) :
    Text.trim (text ++ blanks) = Text.trim text := by
  rw [Text.trim, Text.trimMatches, List.dropWhile_append]
  split
  next hempty =>
    rw [List.dropWhile_eq_nil_iff.mpr h, Text.trim, Text.trimMatches, List.isEmpty_iff.mp hempty]
  next => exact Text.trimEndMatches_append h

theorem trim_blank_append {text blanks : Text} (h : ∀ ch ∈ blanks, Text.isWhitespace ch = true) :
    Text.trim (blanks ++ text) = Text.trim text := by
  rw [Text.trim, Text.trimMatches, List.dropWhile_append_of_pos h]
  rfl

/-- Only blanks are trimmed. -/
theorem exists_trim (text : Text) : ∃ front back : Text,
    (∀ ch ∈ front, Text.isWhitespace ch = true) ∧ (∀ ch ∈ back, Text.isWhitespace ch = true) ∧
      text = front ++ (Text.trim text ++ back) := by
  refine ⟨text.takeWhile Text.isWhitespace,
    ((text.dropWhile Text.isWhitespace).reverse.takeWhile Text.isWhitespace).reverse,
    fun ch hch => List.mem_takeWhile_imp hch,
    fun ch hch => List.mem_takeWhile_imp (List.mem_reverse.mp hch), ?_⟩
  have hback : Text.trim text ++
      ((text.dropWhile Text.isWhitespace).reverse.takeWhile Text.isWhitespace).reverse =
        text.dropWhile Text.isWhitespace := by
    rw [Text.trim, Text.trimMatches, Text.trimEndMatches, ← List.reverse_append,
      List.takeWhile_append_dropWhile, List.reverse_reverse]
  rw [hback, List.takeWhile_append_dropWhile]

/-! ## Splitting -/

section

variable {scan scan' : Scan} {value text rest front blanks : Text} {ch : Char}

/-- A text without a separating comma is read into the value. -/
theorem splitFrom_contained (h : text.foldlM Scan.next scan = some scan') (value rest : Text) :
    splitFrom scan value (text ++ rest) = splitFrom scan' (value ++ text) rest := by
  induction text generalizing scan value with
  | nil =>
    cases h
    rw [List.append_nil]
    rfl
  | cons ch text ih =>
    rw [List.foldlM_cons] at h
    obtain ⟨next, hnext, h⟩ := Option.bind_eq_some_iff.mp h
    rw [List.cons_append, splitFrom, hnext]
    dsimp only
    rw [ih h, List.append_assoc]
    rfl

/-- White space does not separate. -/
theorem Scan.next_blank (h : Text.isWhitespace ch = true) (scan : Scan) :
    scan.next ch = some { scan with escaped := false } := by
  have hsolid : ∀ other ∈ ['\\', '\'', '"', '(', ')', ','], Text.isWhitespace other = false :=
    List.forall_iff_forall_mem.mp (by decide)
  have hne : ∀ other ∈ ['\\', '\'', '"', '(', ')', ','], ch ≠ other := by
    rintro _ hother rfl
    rw [hsolid ch hother] at h
    cases h
  simp only [List.forall_mem_cons, List.not_mem_nil, false_implies, implies_true, and_true] at hne
  obtain ⟨hescape, hsingle, hdouble, hopen, hclose, hcomma⟩ := hne
  obtain ⟨depth, quote, escaped⟩ := scan
  cases escaped <;> cases quote <;> simp [Scan.next, hescape, hsingle, hdouble, hopen, hclose, hcomma]

theorem foldlM_blank (h : ∀ ch ∈ blanks, Text.isWhitespace ch = true) : ∀ scan : Scan,
    ∃ scan', blanks.foldlM Scan.next scan = some scan' ∧ (scan.escaped = false → scan' = scan) := by
  induction blanks with
  | nil => exact fun scan => ⟨scan, rfl, fun _ => rfl⟩
  | cons ch blanks ih =>
    intro scan
    obtain ⟨scan', hblanks, hsame⟩ := ih (fun other hother => h other (List.mem_cons_of_mem _ hother))
      { scan with escaped := false }
    refine ⟨scan', ?_, fun hescaped => ?_⟩
    · rw [List.foldlM_cons, Scan.next_blank (h ch List.mem_cons_self)]
      exact hblanks
    · rw [hsame rfl, ← hescaped]

/-- What is in the value already is in front of the first piece. -/
theorem splitFrom_value (front : Text) : ∀ (text : Text) (scan : Scan) (value : Text),
    splitFrom scan (front ++ value) text = (splitFrom scan value text).modifyHead (front ++ ·)
  | [], _, _ => rfl
  | ch :: text, scan, value => by
    rw [splitFrom, splitFrom]
    split
    · rw [List.append_assoc, splitFrom_value front text]
    · rfl

theorem splitFrom_append_blank (h : ∀ ch ∈ blanks, Text.isWhitespace ch = true) :
    ∀ (text : Text) (scan : Scan) (value : Text),
      (splitFrom scan value (text ++ blanks)).map Text.trim = (splitFrom scan value text).map Text.trim
  | [], scan, value => by
    obtain ⟨_, hblanks, -⟩ := foldlM_blank h scan
    have hall := splitFrom_contained hblanks value []
    rw [List.append_nil] at hall
    rw [List.nil_append, hall, splitFrom, splitFrom, List.map_singleton, trim_append_blank h]
    rfl
  | ch :: text, scan, value => by
    rw [List.cons_append, splitFrom, splitFrom]
    split
    · exact splitFrom_append_blank h text _ _
    · rw [List.map_cons, List.map_cons, splitFrom_append_blank h text]

/-- The pieces are trimmed, so that trimming the whole text changes nothing. -/
theorem splitTopLevelCommas_trim (text : Text) :
    (splitTopLevelCommas (Text.trim text)).map Text.trim = (splitTopLevelCommas text).map Text.trim := by
  obtain ⟨front, back, hfront, hback, htext⟩ := exists_trim text
  have hscan : front.foldlM Scan.next ({} : Scan) = some {} := by
    obtain ⟨_, hblanks, hsame⟩ := foldlM_blank hfront {}
    rw [hblanks, hsame rfl]
  have hsplit : splitTopLevelCommas text =
      (splitFrom {} [] (Text.trim text ++ back)).modifyHead (front ++ ·) := by
    conv_lhs => rw [htext]
    rw [splitTopLevelCommas, splitFrom_contained hscan, ← splitFrom_value, List.append_nil, List.nil_append]
  have hhead : ∀ pieces : List Text,
      (pieces.modifyHead (front ++ ·)).map Text.trim = pieces.map Text.trim := by
    intro pieces
    cases pieces with
    | nil => rfl
    | cons piece pieces => exact congrArg (· :: pieces.map Text.trim) (trim_blank_append hfront)
  rw [hsplit, hhead, splitFrom_append_blank hback]
  rfl

/-- Members without a separating comma are cut out as they are. -/
theorem splitTopLevelCommas_join : ∀ {members : List Text}, members ≠ [] →
    (∀ member ∈ members, member.foldlM Scan.next ({} : Scan) = some {}) →
      splitTopLevelCommas (Text.join [','] members) = members
  | [], hne, _ => absurd rfl hne
  | [member], _, h => by
    have hsplit := splitFrom_contained (h member List.mem_cons_self) [] []
    rw [List.append_nil] at hsplit
    exact hsplit
  | member :: other :: members, _, h => by
    have hsplit := splitFrom_contained (h member List.mem_cons_self) []
      (',' :: Text.join [','] (other :: members))
    have hothers := splitTopLevelCommas_join (List.cons_ne_nil other members)
      fun m hm => h m (List.mem_cons_of_mem _ hm)
    rw [Text.join, List.append_assoc, splitTopLevelCommas]
    refine hsplit.trans ?_
    rw [List.nil_append]
    exact congrArg (member :: ·) hothers

end

/-! ## Comments -/

/-- No quote, escape or comment is left open. -/
def closes (quote : Option Char) : Text → Bool
  | [] => quote.isNone
  | ch :: rest =>
    if ch = '\\' then
      match rest with
      | [] => false
      | _ :: rest => closes quote rest
    else
      match quote with
      | some delimiter => closes (if ch = delimiter then none else some delimiter) rest
      | none =>
        if ch = '\'' ∨ ch = '"' then closes (some ch) rest
        else if ch = '/' ∧ rest.head? = some '*' then
          match _h : skipComments rest with
          | none => false
          | some after => closes none after
        else closes none rest
termination_by input => input.length
decreasing_by
  all_goals simp only [List.length_cons]
  all_goals try omega
  have hlength := length_skipComments _h
  omega

variable {text after output front : Text} {quote : Option Char}

theorem skipComment_append (h : skipComment text = some after) (rest : Text) :
    skipComment (text ++ rest) = some (after ++ rest) := by
  induction text with
  | nil => cases h
  | cons ch text ih =>
    rw [skipComment] at h
    rw [List.cons_append, skipComment]
    split at h
    next hend =>
      cases h
      cases text with
      | nil => cases hend.2
      | cons next text =>
        rw [if_pos ⟨hend.1, hend.2⟩]
        rfl
    next hend =>
      rw [if_neg, ih h]
      rintro ⟨hstar, hslash⟩
      cases text with
      | nil => cases h
      | cons next text => exact hend ⟨hstar, hslash⟩

theorem skipComments_eq (h : skipComment text.tail = some after) :
    skipComments text = if after.take 2 = ['/', '*'] then skipComments after.tail else some after := by
  rw [skipComments]
  split
  next hnone =>
    rw [h] at hnone
    cases hnone
  next hsome =>
    rw [h] at hsome
    cases hsome
    rfl

/-- A comma behind a comment is no part of it. -/
theorem skipComments_append (hne : text ≠ []) (h : skipComments text = some after) (rest : Text) :
    skipComments (text ++ ',' :: rest) = some (after ++ ',' :: rest) := by
  fun_induction skipComments text with
  | case1 => cases h
  | case2 text next hnext hagain ih =>
    have htail : skipComment (text ++ ',' :: rest).tail = some (next ++ ',' :: rest) := by
      rw [List.tail_append_of_ne_nil hne]
      exact skipComment_append hnext _
    obtain ⟨others, rfl⟩ : ∃ others, next = '/' :: '*' :: others :=
      ⟨next.drop 2, by rw [← List.take_append_drop 2 next, hagain]; rfl⟩
    exact (skipComments_eq htail).trans ((if_pos rfl).trans (ih (List.cons_ne_nil _ _) h))
  | case3 text next hnext hagain =>
    have htail : skipComment (text ++ ',' :: rest).tail = some (next ++ ',' :: rest) := by
      rw [List.tail_append_of_ne_nil hne]
      exact skipComment_append hnext _
    cases h
    rw [skipComments_eq htail, if_neg]
    intro htake
    rcases after with - | ⟨ch, - | ⟨other, others⟩⟩
    · exact absurd htake (by simp)
    · exact absurd htake (by simp)
    · exact hagain htake

theorem comparisonPair_append (output after rest : Text) :
    comparisonPair output (after ++ ',' :: rest) = comparisonPair output after := by
  cases after with
  | nil => exact (Bool.and_false _).trans (Bool.and_false _).symm
  | cons ch after => rfl

/-! ### One pass -/

variable {ch delimiter : Char} {rest : Text}

theorem normalizeFrom_escape : normalizeFrom quote output ('\\' :: ch :: rest) =
    normalizeFrom quote (output ++ ['\\', ch]) rest := by
  rw [normalizeFrom.eq_def]
  dsimp only
  rw [if_pos rfl]

theorem closes_escape : closes quote ('\\' :: ch :: rest) = closes quote rest := by
  rw [closes.eq_def]
  dsimp only
  rw [if_pos rfl]

theorem normalizeFrom_quoted (h : ch ≠ '\\') : normalizeFrom (some delimiter) output (ch :: rest) =
    normalizeFrom (if ch = delimiter then none else some delimiter) (output ++ [ch]) rest := by
  rw [normalizeFrom.eq_def]
  dsimp only
  rw [if_neg h]

theorem closes_quoted (h : ch ≠ '\\') : closes (some delimiter) (ch :: rest) =
    closes (if ch = delimiter then none else some delimiter) rest := by
  rw [closes.eq_def]
  dsimp only
  rw [if_neg h]

theorem normalizeFrom_quote (h : ch ≠ '\\') (hquote : ch = '\'' ∨ ch = '"') :
    normalizeFrom none output (ch :: rest) = normalizeFrom (some ch) (output ++ [ch]) rest := by
  rw [normalizeFrom.eq_def]
  dsimp only
  rw [if_neg h, if_pos hquote]

theorem closes_quote (h : ch ≠ '\\') (hquote : ch = '\'' ∨ ch = '"') :
    closes none (ch :: rest) = closes (some ch) rest := by
  rw [closes.eq_def]
  dsimp only
  rw [if_neg h, if_pos hquote]

theorem normalizeFrom_comment (hstart : rest.head? = some '*') (hafter : skipComments rest = some after) :
    normalizeFrom none output ('/' :: rest) =
      normalizeFrom none (if comparisonPair output after then output else output ++ [' ']) after := by
  rw [normalizeFrom.eq_def]
  dsimp only
  rw [if_neg (by decide), if_neg (by decide), if_pos ⟨rfl, hstart⟩]
  split
  next hnone =>
    rw [hafter] at hnone
    cases hnone
  next hsome =>
    rw [hafter] at hsome
    cases hsome
    rfl

theorem normalizeFrom_unclosed (hstart : rest.head? = some '*') (hnone : skipComments rest = none) :
    normalizeFrom none output ('/' :: rest) = output ++ [' '] := by
  rw [normalizeFrom.eq_def]
  dsimp only
  rw [if_neg (by decide), if_neg (by decide), if_pos ⟨rfl, hstart⟩]
  split
  next => exact if_neg (by simp [comparisonPair])
  next hsome =>
    rw [hnone] at hsome
    cases hsome

theorem closes_comment (hstart : rest.head? = some '*') :
    closes none ('/' :: rest) = (skipComments rest).any (closes none) := by
  rw [closes.eq_def]
  dsimp only
  rw [if_neg (by decide), if_neg (by decide), if_pos ⟨rfl, hstart⟩]
  split <;> simp_all

theorem normalizeFrom_plain (h : ch ≠ '\\') (hquote : ¬ (ch = '\'' ∨ ch = '"'))
    (hstart : ¬ (ch = '/' ∧ rest.head? = some '*')) :
    normalizeFrom none output (ch :: rest) = normalizeFrom none (output ++ [ch]) rest := by
  rw [normalizeFrom.eq_def]
  dsimp only
  rw [if_neg h, if_neg hquote, if_neg hstart]

theorem closes_plain (h : ch ≠ '\\') (hquote : ¬ (ch = '\'' ∨ ch = '"'))
    (hstart : ¬ (ch = '/' ∧ rest.head? = some '*')) : closes none (ch :: rest) = closes none rest := by
  rw [closes.eq_def]
  dsimp only
  rw [if_neg h, if_neg hquote, if_neg hstart]

/-! ### All passes -/

/-- A comma behind a closed part is read as it is. -/
theorem normalizeFrom_append (h : closes quote text = true) (rest : Text) :
    normalizeFrom quote output (text ++ ',' :: rest) =
      normalizeFrom none (normalizeFrom quote output text ++ [',']) rest := by
  fun_induction normalizeFrom quote output text with
  | case1 quote output =>
    rw [closes, Option.isNone_iff_eq_none] at h
    rw [h]
    exact normalizeFrom_plain (by decide) (by decide) (by simp)
  | case2 =>
    rw [closes.eq_def] at h
    dsimp only at h
    rw [if_pos rfl] at h
    cases h
  | case3 quote output ch text ih =>
    rw [closes_escape] at h
    exact normalizeFrom_escape.trans (ih h)
  | case4 output ch text hch delimiter ih =>
    rw [closes_quoted hch] at h
    exact (normalizeFrom_quoted hch).trans (ih h)
  | case5 output ch text hch hquote ih =>
    rw [closes_quote hch hquote] at h
    exact (normalizeFrom_quote hch hquote).trans (ih h)
  | case6 output ch text hch hquote hstart hnone | case7 output ch text hch hquote hstart hnone =>
    rw [hstart.1, closes_comment hstart.2, hnone] at h
    cases h
  | case8 output ch text hch hquote hstart after hafter ih =>
    rw [hstart.1, closes_comment hstart.2, hafter] at h
    have hne : text ≠ [] := by
      rintro rfl
      cases hstart.2
    have hstart' : (text ++ ',' :: rest).head? = some '*' := by
      rw [List.head?_append_of_ne_nil _ hne]
      exact hstart.2
    rw [hstart.1]
    refine (normalizeFrom_comment hstart' (skipComments_append hne hafter rest)).trans ?_
    rw [comparisonPair_append]
    exact ih h
  | case9 output ch text hch hquote hstart ih =>
    rw [closes_plain hch hquote hstart] at h
    refine (normalizeFrom_plain hch hquote ?_).trans (ih h)
    rintro ⟨hslash, hhead⟩
    cases text with
    | nil => cases hhead
    | cons next text => exact hstart ⟨hslash, hhead⟩

/-- What was written before is not changed, and is seen by a comment at the beginning only. -/
theorem normalizeFrom_output (front : Text)
    (h : output ≠ [] ∨ (front.getLast? ≠ some '<' ∧ front.getLast? ≠ some '>')) :
    normalizeFrom quote (front ++ output) text = front ++ normalizeFrom quote output text := by
  have hpair : ∀ {output : Text} (after : Text),
      (output ≠ [] ∨ (front.getLast? ≠ some '<' ∧ front.getLast? ≠ some '>')) →
        comparisonPair (front ++ output) after = comparisonPair output after := by
    intro output after h
    cases output with
    | nil =>
      obtain ⟨hless, hgreater⟩ := h.resolve_left fun hne => hne rfl
      rw [List.append_nil, comparisonPair, comparisonPair, beq_false_of_ne hless,
        beq_false_of_ne hgreater]
      rfl
    | cons ch output =>
      rw [comparisonPair, comparisonPair, List.getLast?_append_of_ne_nil _ (List.cons_ne_nil _ _)]
  have hconcat : ∀ (output added : Text), added ≠ [] →
      (output ++ added ≠ [] ∨ (front.getLast? ≠ some '<' ∧ front.getLast? ≠ some '>')) :=
    fun output added hne => .inl fun hnil => hne (List.append_eq_nil_iff.mp hnil).2
  fun_induction normalizeFrom quote output text with
  | case1 quote output => rw [normalizeFrom]
  | case2 quote output =>
    rw [normalizeFrom.eq_def]
    dsimp only
    rw [if_pos rfl, List.append_assoc]
  | case3 quote output ch text ih =>
    rw [normalizeFrom_escape, List.append_assoc]
    exact ih (hconcat _ _ (List.cons_ne_nil _ _))
  | case4 output ch text hch delimiter ih =>
    rw [normalizeFrom_quoted hch, List.append_assoc]
    exact ih (hconcat _ _ (List.cons_ne_nil _ _))
  | case5 output ch text hch hquote ih =>
    rw [normalizeFrom_quote hch hquote, List.append_assoc]
    exact ih (hconcat _ _ (List.cons_ne_nil _ _))
  | case6 output ch text hch hquote hstart hnone hcompares =>
    exact absurd hcompares (by simp [comparisonPair])
  | case7 output ch text hch hquote hstart hnone hcompares =>
    rw [hstart.1, normalizeFrom_unclosed hstart.2 hnone, List.append_assoc]
  | case8 output ch text hch hquote hstart after hafter ih =>
    rw [hstart.1, normalizeFrom_comment hstart.2 hafter, hpair after h]
    by_cases hcompares : comparisonPair output after = true
    · simp only [hcompares, if_true, dite_true] at ih ⊢
      exact ih h
    · simp only [hcompares, if_false, dite_false, Bool.false_eq_true] at ih ⊢
      rw [List.append_assoc]
      exact ih (hconcat _ _ (List.cons_ne_nil _ _))
  | case9 output ch text hch hquote hstart ih =>
    rw [normalizeFrom_plain hch hquote hstart, List.append_assoc]
    exact ih (hconcat _ _ (List.cons_ne_nil _ _))

/-- Behind a closed part and its comma the text is normalized by itself. -/
theorem normalize_append (h : closes none text = true) (rest : Text) :
    normalize (text ++ ',' :: rest) = normalize text ++ ',' :: normalize rest := by
  have hcomma : (normalize text ++ [',']).getLast? = some ',' := List.getLast?_concat
  have hrest : normalizeFrom none (normalize text ++ [',']) rest =
      normalize text ++ [','] ++ normalizeFrom none [] rest := by
    have hfront := @normalizeFrom_output rest [] none (normalize text ++ [','])
      (.inr (by rw [hcomma]; decide))
    rwa [List.append_nil] at hfront
  refine (normalizeFrom_append h rest).trans (hrest.trans ?_)
  rw [List.append_assoc]
  rfl

theorem Clean.tail (h : Clean (ch :: text)) : Clean text where
  plain := fun other hother => h.plain other (List.mem_cons_of_mem _ hother)
  uncommented := h.uncommented.of_cons

theorem Clean.not_quote (h : Clean (ch :: text)) : ¬ (ch = '\'' ∨ ch = '"') := by
  obtain ⟨hsingle, hdouble⟩ := h.plain ch List.mem_cons_self
  rintro (heq | heq)
  · exact hsingle heq
  · exact hdouble heq

theorem Clean.not_comment (h : Clean (ch :: text)) : ¬ (ch = '/' ∧ text.head? = some '*') := by
  rintro ⟨hslash, hstar⟩
  cases text with
  | nil => cases hstar
  | cons next text => exact (List.isChain_cons_cons.mp h.uncommented).1 ⟨hslash, Option.some.inj hstar⟩

/-- A text without quotes and comments is left as it is. -/
theorem normalizeFrom_clean : ∀ {text : Text} (output : Text), Clean text →
    normalizeFrom none output text = output ++ text
  | [], output, _ => by rw [normalizeFrom, List.append_nil]
  | ch :: text, output, h => by
    by_cases hch : ch = '\\'
    · subst hch
      cases text with
      | nil =>
        rw [normalizeFrom.eq_def]
        exact if_pos rfl
      | cons next text =>
        rw [normalizeFrom_escape, normalizeFrom_clean _ h.tail.tail, List.append_assoc]
        rfl
    · rw [normalizeFrom_plain hch h.not_quote h.not_comment, normalizeFrom_clean _ h.tail,
        List.append_assoc]
      rfl

theorem normalize_clean (h : Clean text) : normalize text = text := normalizeFrom_clean [] h

theorem closes_clean : ∀ {text : Text}, Clean text → text.getLast? ≠ some '\\' →
    closes none text = true
  | [], _, _ => by rw [closes]; rfl
  | ch :: text, h, hlast => by
    by_cases hch : ch = '\\'
    · subst hch
      cases text with
      | nil => exact absurd rfl hlast
      | cons next text =>
        rw [closes_escape]
        refine closes_clean h.tail.tail fun heq => hlast ?_
        rw [List.getLast?_cons, List.getLast?_cons, heq]
        rfl
    · rw [closes_plain hch h.not_quote h.not_comment]
      refine closes_clean h.tail fun heq => hlast ?_
      rw [List.getLast?_cons, heq]
      rfl

/-! ## Members -/

/-- A member of a list leaves no quote, comment or parenthesis open, and has no comma outside of them. -/
structure Member where
  text : Text
  closed : closes none text = true
  contained : (normalize text).foldlM Scan.next ({} : Scan) = some {}

variable {Leaf : Type} {features : Features Leaf} {environment : MediaEnvironment Leaf}

theorem normalize_join : ∀ members : List Member,
    normalize (Text.join [','] (members.map Member.text)) =
      Text.join [','] (members.map fun member => normalize member.text)
  | [] => by rw [normalize, List.map_nil, Text.join, normalizeFrom]; rfl
  | [member] => rfl
  | member :: other :: members => by
    have hothers := normalize_join (other :: members)
    simp only [List.map_cons, Text.join, List.append_assoc, List.singleton_append] at hothers ⊢
    rw [normalize_append member.closed, hothers]

/-- A part of a list matches. -/
def matchesPart (features : Features Leaf) (environment : MediaEnvironment Leaf) (part : Text) : Bool :=
  evaluateMediaQuery environment ((parseSingleMediaQuery features (Text.trim part)).getD notAll)

/-- Trimming the list does not change what matches, and in a blank one nothing does. -/
theorem mediaQueryListMatches_eq (prelude : Text) :
    mediaQueryListMatches features environment prelude =
      (splitTopLevelCommas (normalize prelude)).any (matchesPart features environment) := by
  let matchesTrimmed (piece : Text) : Bool :=
    evaluateMediaQuery environment ((parseSingleMediaQuery features piece).getD notAll)
  have htrim : (splitTopLevelCommas (normalize prelude)).any (matchesPart features environment) =
      ((splitTopLevelCommas (Text.trim (normalize prelude))).map Text.trim).any matchesTrimmed := by
    rw [splitTopLevelCommas_trim, List.any_map]
    rfl
  rw [htrim, mediaQueryListMatches, parseMediaQueryList]
  by_cases hempty : (Text.trim (normalize prelude)).isEmpty = true
  · rw [if_pos hempty, List.isEmpty_iff.mp hempty]
    rfl
  · rw [if_neg hempty, Option.any_some, List.any_map, List.any_map]
    rfl

/-- A list matches if and only if one of its members does. -/
theorem mediaQueryListMatches_join (members : List Member) :
    mediaQueryListMatches features environment (Text.join [','] (members.map Member.text)) =
      members.any fun member => mediaQueryListMatches features environment member.text := by
  have hmember : ∀ member : Member, mediaQueryListMatches features environment member.text =
      matchesPart features environment (normalize member.text) := by
    intro member
    have hsplit : splitTopLevelCommas (normalize member.text) = [normalize member.text] :=
      splitTopLevelCommas_join (List.cons_ne_nil _ []) fun m hm => by
        rw [List.mem_singleton.mp hm]
        exact member.contained
    rw [mediaQueryListMatches_eq, hsplit, List.any_cons, List.any_nil, Bool.or_false]
  rw [mediaQueryListMatches_eq, normalize_join]
  cases members with
  | nil => rfl
  | cons member members =>
    rw [splitTopLevelCommas_join (by simp), List.any_map]
    · congr 1
      funext m
      exact (hmember m).symm
    · intro piece hpiece
      obtain ⟨m, -, rfl⟩ := List.mem_map.mp hpiece
      exact m.contained

/-! ## Queries as members -/

theorem clean_append {xs ys : Text} (hxs : Clean xs) (hys : Clean ys) (h : ys.head? ≠ some '*') :
    Clean (xs ++ ys) where
  plain := by
    intro ch hch
    rcases List.mem_append.mp hch with hch | hch
    · exact hxs.plain ch hch
    · exact hys.plain ch hch
  uncommented := by
    refine List.isChain_append.mpr ⟨hxs.uncommented, hys.uncommented, ?_⟩
    rintro a - b hb ⟨-, rfl⟩
    exact h hb

theorem clean_cons {text : Text} (hch : ch ≠ '\'' ∧ ch ≠ '"' ∧ ch ≠ '/') (h : Clean text) :
    Clean (ch :: text) where
  plain := List.forall_mem_cons.mpr ⟨⟨hch.1, hch.2.1⟩, h.plain⟩
  uncommented := h.uncommented.cons fun _ _ hslash => hch.2.2 hslash.1

theorem clean_nil : Clean [] := ⟨nofun, .nil⟩

/-- A text without quotes and slashes. -/
theorem clean_of_plain : ∀ {text : Text}, (∀ ch ∈ text, ch ≠ '\'' ∧ ch ≠ '"' ∧ ch ≠ '/') → Clean text
  | [], _ => clean_nil
  | _ :: _, h =>
    clean_cons (h _ List.mem_cons_self)
      (clean_of_plain fun other hother => h other (List.mem_cons_of_mem _ hother))

theorem clean_enclosed {text : Text} (h : Clean text) : Clean (enclosed text) :=
  clean_cons (by decide) (clean_append h (clean_of_plain (List.forall_iff_forall_mem.mp (by decide))) (by decide))

mutual

theorem Condition.clean_inner : ∀ c : Condition, Clean c.inner
  | .feature f => f.clean
  | .not operand =>
    clean_append (clean_of_plain (List.forall_iff_forall_mem.mp (by decide)))
      (clean_enclosed operand.clean_inner) (fun h => by cases h)
  | .chain first others =>
    clean_append (clean_enclosed first.clean_inner) others.clean_write others.head?_write_ne

theorem Chain.clean_write : ∀ others : Chain, Clean others.write
  | .nil => clean_nil
  | .cons joiner operand others => by
    have hjoiner : Clean joiner.keyword := by
      cases joiner <;> exact clean_of_plain (List.forall_iff_forall_mem.mp (by decide))
    have hothers := clean_append (clean_enclosed operand.clean_inner) others.clean_write
      others.head?_write_ne
    exact clean_cons (by decide)
      (clean_append hjoiner (clean_cons (by decide) hothers) (fun h => by cases h))

theorem Chain.head?_write_ne : ∀ others : Chain, others.write.head? ≠ some '*'
  | .nil => nofun
  | .cons _ _ _ => fun h => by cases h

end

theorem Condition.clean_write (c : Condition) : Clean c.write := by
  cases c with
  | feature f => exact clean_enclosed f.clean
  | not operand => exact (Condition.not operand).clean_inner
  | chain first others => exact (Condition.chain first others).clean_inner

/-- Inside of parentheses no comma separates. -/
theorem scan_balanced {text : Text} (hbalanced : parens.Balanced text) (hclean : Clean text)
    (depth : Nat) : text.foldlM Scan.next { depth := depth + 1 } = some { depth := depth + 1 } := by
  let level (depth : Nat) : Scan := { depth }
  change text.foldlM Scan.next (level (depth + 1)) = some (level (depth + 1))
  refine hbalanced.foldlM ?_ ?_ ?_ depth
  · intro depth ch hopens hcloses hch
    obtain ⟨hsingle, hdouble⟩ := hclean.plain ch hch
    simp [Scan.next, level, hsingle, hdouble, ne_of_beq_false hopens, ne_of_beq_false hcloses]
  · intro depth ch hopens
    rw [beq_iff_eq.mp hopens]
    rfl
  · intro depth ch hcloses
    rw [beq_iff_eq.mp hcloses]
    rfl

theorem scan_enclosed {text : Text} (hbalanced : parens.Balanced text) (hclean : Clean text) :
    (enclosed text).foldlM Scan.next ({} : Scan) = some {} := by
  have hinner := scan_balanced hbalanced hclean 0
  rw [enclosed, List.foldlM_cons]
  refine (List.foldlM_append).trans ?_
  rw [hinner]
  rfl

theorem scan_append {xs ys : Text} (hxs : xs.foldlM Scan.next ({} : Scan) = some {})
    (hys : ys.foldlM Scan.next ({} : Scan) = some {}) :
    (xs ++ ys).foldlM Scan.next ({} : Scan) = some {} := by
  rw [List.foldlM_append, hxs]
  exact hys

theorem Chain.scan_write : ∀ others : Chain, others.write.foldlM Scan.next ({} : Scan) = some {}
  | .nil => rfl
  | .cons joiner operand others => by
    have hoperand := scan_append (scan_enclosed operand.balanced_inner operand.clean_inner)
      others.scan_write
    have hjoiner : (' ' :: (joiner.keyword ++ [' '])).foldlM Scan.next ({} : Scan) = some {} := by
      cases joiner <;> rfl
    have hall := scan_append hjoiner hoperand
    rwa [List.cons_append, List.append_assoc] at hall

theorem Condition.scan_write (c : Condition) : c.write.foldlM Scan.next ({} : Scan) = some {} := by
  cases c with
  | feature f => exact scan_enclosed f.balanced f.clean
  | not operand => exact scan_append rfl (scan_enclosed operand.balanced_inner operand.clean_inner)
  | chain first others =>
    exact scan_append (scan_enclosed first.balanced_inner first.clean_inner) others.scan_write

namespace WrittenQuery

theorem clean_tail : ∀ clause : Option Condition, Clean (tail clause)
  | none => clean_nil
  | some c => clean_append (clean_of_plain (List.forall_iff_forall_mem.mp (by decide))) c.clean_write fun h => by
    rcases c.head?_write with heq | heq <;> rw [heq] at h <;> cases h

theorem scan_tail : ∀ clause : Option Condition, (tail clause).foldlM Scan.next ({} : Scan) = some {}
  | none => rfl
  | some c => scan_append rfl c.scan_write

end WrittenQuery

/-- A media type has none of the characters that the list looks at. -/
theorem TypeName.ne (name : TypeName features) (hch : ch ∈ name.text) :
    ∀ other ∈ ['\'', '"', '/', '*', '\\', '(', ')', ','], ch ≠ other := by
  have hnone : ∀ other ∈ ['\'', '"', '/', '*', '\\', '(', ')', ','],
      other.toNat < 128 ∧ (other.isAlphanum || other == '-' || other == '_') = false :=
    List.forall_iff_forall_mem.mp (by decide)
  rintro _ hother rfl
  obtain ⟨hascii, hfalse⟩ := hnone ch hother
  have hvalid := (name.valid ch hch).1
  rw [isTypeChar_ascii hascii, hfalse] at hvalid
  cases hvalid

theorem TypeName.clean (name : TypeName features) : Clean name.text :=
  clean_of_plain fun ch hch =>
    ⟨name.ne hch _ (by decide), name.ne hch _ (by decide), name.ne hch _ (by decide)⟩

theorem TypeName.scan (name : TypeName features) :
    name.text.foldlM Scan.next ({} : Scan) = some {} := by
  have hall : ∀ {text : Text}, (∀ ch ∈ text, Scan.next {} ch = some {}) →
      text.foldlM Scan.next ({} : Scan) = some {} := by
    intro text h
    induction text with
    | nil => rfl
    | cons ch text ih =>
      rw [List.foldlM_cons, h ch List.mem_cons_self]
      exact ih fun other hother => h other (List.mem_cons_of_mem _ hother)
  refine hall fun ch hch => ?_
  have hne := name.ne hch
  simp only [List.forall_mem_cons, List.not_mem_nil, false_implies, implies_true, and_true] at hne
  obtain ⟨hsingle, hdouble, -, -, -, hopen, hclose, hcomma⟩ := hne
  simp [Scan.next, hsingle, hdouble, hopen, hclose, hcomma]

namespace WrittenQuery

theorem clean_write (q : WrittenQuery features) : Clean q.write := by
  cases q with
  | condition c => exact c.clean_write
  | typed modifier name clause =>
    have hname : Clean (name.text ++ tail clause) := by
      refine clean_append name.clean (clean_tail clause) fun h => ?_
      cases head?_tail clause _ h
    cases modifier with
    | none => exact hname
    | not | only =>
      refine clean_append (clean_of_plain (List.forall_iff_forall_mem.mp (by decide))) hname fun h => ?_
      obtain ⟨first, hfirst, hhead⟩ := name.head? (tail clause)
      rw [hhead] at h
      exact name.ne hfirst '*' (by decide) (Option.some.inj h)

theorem scan_write (q : WrittenQuery features) : q.write.foldlM Scan.next ({} : Scan) = some {} := by
  cases q with
  | condition c => exact c.scan_write
  | typed modifier name clause =>
    have hname := scan_append name.scan (scan_tail clause)
    cases modifier with
    | none => exact hname
    | not | only => exact scan_append rfl hname

theorem getLast?_write (q : WrittenQuery features) : q.write.getLast? ≠ some '\\' := by
  intro h
  cases q with
  | condition c =>
    rw [write, c.getLast?_write] at h
    cases h
  | typed modifier name clause =>
    rw [write, List.getLast?_append, List.getLast?_append] at h
    cases clause with
    | none =>
      rw [tail, List.getLast?_nil, Option.none_or, List.getLast?_eq_some_getLast name.nonempty] at h
      exact name.ne (List.getLast_mem name.nonempty) '\\' (by decide) (Option.some.inj h)
    | some c =>
      rw [tail, List.getLast?_append, c.getLast?_write] at h
      cases h

/-- A query that is written out is a member of a list. -/
def member (q : WrittenQuery features) : Member where
  text := q.write
  closed := closes_clean q.clean_write q.getLast?_write
  contained := by
    rw [normalize_clean q.clean_write]
    exact q.scan_write

/-- A query by itself matches if and only if what it says is true. -/
theorem matches_write (q : WrittenQuery features) :
    mediaQueryListMatches features environment q.write = (q.meaning environment == some (some true)) := by
  have hsplit : splitTopLevelCommas q.write = [q.write] :=
    splitTopLevelCommas_join (List.cons_ne_nil _ []) fun m hm => by
      rw [List.mem_singleton.mp hm]
      exact q.scan_write
  have hparse := @parse_write _ features environment q
  rw [mediaQueryListMatches_eq, normalize_clean q.clean_write, hsplit, List.any_cons, List.any_nil,
    Bool.or_false, matchesPart, q.trim_write]
  cases hquery : parseSingleMediaQuery features q.write with
  | none =>
    rw [hquery, Option.map_none] at hparse
    rw [Option.map_eq_none_iff.mp hparse.symm]
    rfl
  | some query =>
    rw [hquery, Option.map_some] at hparse
    obtain ⟨value, hmeaning, hvalue⟩ := Option.map_eq_some_iff.mp hparse.symm
    rw [hmeaning, Option.getD_some, ← hvalue]
    rfl

end WrittenQuery

/-- A media condition is parsed and evaluated to its value, and rejected where a level mixes its joiners;
a query matches only if its value is true; and a list matches if and only if one of its members does. -/
theorem mediaQueries_sound (features : Features Leaf) (environment : MediaEnvironment Leaf) :
    (∀ c : Condition, (parseCondition features c.write true).map (evaluateCondition environment) =
      if c.wellFormed true then some (c.value (valueOf features environment)) else none) ∧
    (∀ q : WrittenQuery features,
      (parseSingleMediaQuery features q.write).map (evaluateMediaQuery environment) =
        (q.meaning environment).map (· == some true)) ∧
    (∀ q : WrittenQuery features, mediaQueryListMatches features environment q.member.text =
      (q.meaning environment == some (some true))) ∧
    ∀ members : List Member,
      mediaQueryListMatches features environment (Text.join [','] (members.map Member.text)) =
        members.any fun member => mediaQueryListMatches features environment member.text :=
  ⟨fun c => c.parse_write true, fun q => q.parse_write, fun q => q.matches_write,
    mediaQueryListMatches_join⟩

end Omoikane.Css.Media
