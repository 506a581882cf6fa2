import Omoikane.Base.Nesting
import Omoikane.Base.Words
import Omoikane.Css.MediaQueries

/-!
# Media conditions

What a media condition says is the value of its tree in Kleene's three-valued logic.  A condition is
written out from its tree (`Condition.write`); where one level mixes `and` with `or` it has no meaning.
The parser and the evaluation find this meaning (`parse_write`), for a query with a media type as well.

The commas of a list are found outside of parentheses, quotes and comments.  A member that leaves none
of them open does not touch the others (`mediaQueryListMatches_join`).
-/

namespace Omoikane.Css.Media

open Base Base.Kleene

/-! ## Trees -/

/-- The parentheses of a text. -/
def parens : Brackets Char := ⟨(· == '('), (· == ')')⟩

/-- A text without quotes and without comments. -/
structure Clean (text : Text) : Prop where
  plain : ∀ ch ∈ text, ch ≠ '\'' ∧ ch ≠ '"'
  uncommented : text.IsChain fun a b => ¬ (a = '/' ∧ b = '*')

/-- A feature as it stands between its parentheses. -/
structure Feature where
  text : Text
  nonempty : text ≠ []
  trimmed : Text.trim text = text
  notNested : text.head? ≠ some '(' ∧ stripKeywordPrefix text "not".toList = none
  balanced : parens.Balanced text
  clean : Clean text

/-- A keyword between two operands. -/
inductive Joiner
  | and
  | or
deriving DecidableEq, Repr

namespace Joiner

def keyword : Joiner → Text
  | and => "and".toList
  | or => "or".toList

def isOr : Joiner → Bool
  | and => false
  | or => true

end Joiner

mutual

/-- A media condition.  A chain without others is a condition in further parentheses. -/
inductive Condition
  | feature (feature : Feature)
  | not (operand : Condition)
  | chain (first : Condition) (others : Chain)

/-- The operands behind the first one, each behind its joiner. -/
inductive Chain
  | nil
  | cons (joiner : Joiner) (operand : Condition) (others : Chain)

end

def enclosed (text : Text) : Text := '(' :: (text ++ [')'])

mutual

/-- A condition as it stands between parentheses. -/
def Condition.inner : Condition → Text
  | .feature f => f.text
  | .not operand => "not ".toList ++ enclosed operand.inner
  | .chain first others => enclosed first.inner ++ others.write

def Chain.write : Chain → Text
  | .nil => []
  | .cons joiner operand others =>
    ' ' :: (joiner.keyword ++ ' ' :: (enclosed operand.inner ++ others.write))

end

/-- A condition as it stands by itself. -/
def Condition.write : Condition → Text
  | .feature f => enclosed f.text
  | c => c.inner

mutual

/-- No level mixes its joiners.  Behind a media type there is no `or` at the outer level. -/
def Condition.wellFormed (allowOr : Bool) : Condition → Bool
  | .feature _ => true
  | .not operand => operand.wellFormed true
  | .chain first others => first.wellFormed true && others.wellFormed allowOr none

/-- The joiners agree with each other and with the one in front. -/
def Chain.wellFormed (allowOr : Bool) : Option Joiner → Chain → Bool
  | _, .nil => true
  | front, .cons joiner operand others =>
    (allowOr || joiner == .and) && front.all (· == joiner) && operand.wellFormed true &&
      others.wellFormed allowOr (some joiner)

end

def Chain.joiner : Chain → Option Joiner
  | .nil => none
  | .cons joiner _ _ => some joiner

/-- The connective of a level. -/
def connective : Option Joiner → List Truth → Truth
  | some .or => Kleene.any
  | _ => Kleene.all

mutual

/-- The value of a tree. -/
def Condition.value (valueOf : Feature → Truth) : Condition → Truth
  | .feature f => valueOf f
  | .not operand => Kleene.not (operand.value valueOf)
  | .chain first others =>
    connective others.joiner (first.value valueOf :: others.values valueOf)

def Chain.values (valueOf : Feature → Truth) : Chain → List Truth
  | .nil => []
  | .cons _ operand others => operand.value valueOf :: others.values valueOf

end

/-- What a condition says, if it says anything. -/
def Condition.meaning (allowOr : Bool) (valueOf : Feature → Truth) (c : Condition) : Option Truth :=
  if c.wellFormed allowOr then some (c.value valueOf) else none

/-! ## Texts -/

theorem trimStart_eq_self {text : Text} (hhead : ∀ ch ∈ text.head?, Text.isWhitespace ch = false) :
    trimStart text = text := by
  cases text with
  | nil => rfl
  | cons ch rest => exact List.dropWhile_cons_of_neg (by simp [hhead ch rfl])

/-- A space in front is not seen. -/
theorem trimStart_space {text : Text} (hhead : ∀ ch ∈ text.head?, Text.isWhitespace ch = false) :
    trimStart (' ' :: text) = text := trimStart_eq_self hhead

theorem head?_enclosed (text rest : Text) : (enclosed text ++ rest).head? = some '(' := rfl

theorem stripKeywordPrefix_space {keyword : Text} (rest : Text) :
    stripKeywordPrefix (keyword ++ ' ' :: rest) keyword = some (' ' :: rest) := by
  rw [stripKeywordPrefix, List.take_left, List.drop_left, if_pos (Text.eqIgnoreAsciiCase_refl _)]
  rfl

/-- A parenthesis in front is no keyword. -/
theorem stripKeywordPrefix_paren {first : Char} {keyword rest : Text}
    (hfirst : first.toLower ≠ '(') : stripKeywordPrefix ('(' :: rest) (first :: keyword) = none := by
  refine if_neg fun heq => ?_
  have hlower := Text.eqIgnoreAsciiCase_iff.mp heq
  rw [List.length_cons, List.take_succ_cons] at hlower
  exact hfirst (List.cons.inj hlower).1.symm

/-! ## Parentheses -/

/-- A balanced part is passed over. -/
theorem matchingParenFrom_balanced {text : Text} (h : parens.Balanced text) :
    ∀ (depth index : Nat) (rest : Text), matchingParenFrom (depth + 1) index (text ++ rest) =
      matchingParenFrom (depth + 1) (index + text.length) rest := by
  induction h with
  | nil => exact fun _ _ _ => rfl
  | atom hopens hcloses =>
    intro depth index rest
    rw [List.singleton_append, matchingParenFrom, if_neg (ne_of_beq_false hopens),
      if_neg (ne_of_beq_false hcloses)]
    rfl
  | @append xs ys _ _ ihxs ihys =>
    intro depth index rest
    rw [List.append_assoc, ihxs, ihys, List.length_append, Nat.add_assoc]
  | @enclose x y xs hopens hcloses _ ih =>
    intro depth index rest
    obtain rfl : x = '(' := beq_iff_eq.mp hopens
    obtain rfl : y = ')' := beq_iff_eq.mp hcloses
    rw [List.cons_append, matchingParenFrom, if_pos rfl, List.append_assoc, ih,
      List.singleton_append, matchingParenFrom, if_neg (by decide), if_pos rfl, if_neg (by omega),
      List.length_cons, List.length_append, List.length_singleton, Nat.add_sub_cancel]
    congr 1
    omega

theorem findMatchingParen_enclosed {text : Text} (h : parens.Balanced text) (rest : Text) :
    findMatchingParen (enclosed text ++ rest) = some (text.length + 1) := by
  have hopen : findMatchingParen (enclosed text ++ rest) =
      matchingParenFrom (0 + 1) 1 (text ++ ([')'] ++ rest)) := by
    rw [← List.append_assoc]
    rfl
  rw [hopen, matchingParenFrom_balanced h, List.singleton_append, matchingParenFrom,
    if_neg (by decide), if_pos rfl, if_pos rfl, Nat.add_comm]

variable {Leaf : Type} {features : Features Leaf} {environment : MediaEnvironment Leaf}

/-- What stands between parentheses is a nested condition or a feature. -/
theorem parseParenthesized_enclosed {parseNested : Text → Option (MediaCondition Leaf)} {text : Text}
    (hbalanced : parens.Balanced text) (htrim : Text.trim text = text) (hne : text ≠ []) (rest : Text) :
    parseParenthesized features parseNested (enclosed text ++ rest) =
      (if text.head? = some '(' ∨ (stripKeywordPrefix text "not".toList).isSome then
        parseNested text else some (features.parseMediaFeature text)).map (·, rest) := by
  have hinner : ((enclosed text ++ rest).take (text.length + 1)).drop 1 = text := by
    simp [enclosed]
  have hrest : (enclosed text ++ rest).drop (text.length + 1 + 1) = rest := by
    simp [enclosed]
  rw [parseParenthesized, if_neg (by rw [head?_enclosed]; exact fun h => h rfl),
    findMatchingParen_enclosed hbalanced]
  dsimp only
  rw [hinner, hrest, htrim, if_neg (by simpa using hne)]

theorem balanced_enclosed {text : Text} (h : parens.Balanced text) : parens.Balanced (enclosed text) :=
  .enclose rfl rfl h

theorem Joiner.balanced_keyword : ∀ joiner : Joiner, parens.Balanced joiner.keyword
  | .and | .or => .of_forall (List.forall_iff_forall_mem.mp (by decide))

mutual

theorem Condition.balanced_inner : ∀ c : Condition, parens.Balanced c.inner
  | .feature f => f.balanced
  | .not operand => .append (.of_forall (List.forall_iff_forall_mem.mp (by decide))) (balanced_enclosed operand.balanced_inner)
  | .chain first others => .append (balanced_enclosed first.balanced_inner) others.balanced_write

theorem Chain.balanced_write : ∀ others : Chain, parens.Balanced others.write
  | .nil => .nil
  | .cons joiner operand others =>
    .cons rfl rfl (.append joiner.balanced_keyword (.cons rfl rfl
      (.append (balanced_enclosed operand.balanced_inner) others.balanced_write)))

end

theorem getLast?_enclosed (text : Text) : (enclosed text).getLast? = some ')' := by
  rw [enclosed, ← List.cons_append, List.getLast?_concat]

/-- A chain ends with a parenthesis, if it has a member. -/
theorem Chain.getLast?_write : ∀ (others : Chain) (text : Text),
    (enclosed text ++ others.write).getLast? = some ')'
  | .nil, text => by rw [Chain.write, List.append_nil, getLast?_enclosed]
  | .cons joiner operand others, text => by
    have hsplit : enclosed text ++ (Chain.cons joiner operand others).write =
        (enclosed text ++ ' ' :: (joiner.keyword ++ [' '])) ++ (enclosed operand.inner ++ others.write) := by
      simp [Chain.write]
    rw [hsplit, List.getLast?_append, others.getLast?_write operand.inner]
    rfl

/-- A condition that is no feature has neither white space around it nor a feature's place. -/
theorem Condition.trim_inner (c : Condition) : Text.trim c.inner = c.inner := by
  cases c with
  | feature f => exact f.trimmed
  | not operand =>
    refine Text.trim_eq_self (fun ch hch => ?_) (fun ch hch => ?_)
    · cases hch
      rfl
    · rw [Condition.inner, List.getLast?_append, getLast?_enclosed] at hch
      cases hch
      rfl
  | chain first others =>
    refine Text.trim_eq_self (fun ch hch => ?_) (fun ch hch => ?_)
    · cases hch
      rfl
    · rw [Condition.inner, others.getLast?_write] at hch
      cases hch
      rfl

/-! ## Evaluation -/

theorem andFrom_eq (values : List Truth) : ∀ isUnknown,
    andFrom isUnknown values = Kleene.and (if isUnknown then none else some true) (Kleene.all values) := by
  induction values with
  | nil => intro isUnknown; cases isUnknown <;> rfl
  | cons value values ih =>
    intro isUnknown
    rw [Kleene.all_cons]
    rcases value with _ | _ | _
    · rw [andFrom, ih]
      cases isUnknown <;> rcases Kleene.all values with _ | _ | _ <;> rfl
    · cases isUnknown <;> rfl
    · rw [andFrom, ih, Kleene.true_and]

theorem logicalAnd_eq (values : List Truth) : logicalAnd values = Kleene.all values :=
  (andFrom_eq values false).trans Kleene.true_and

theorem orFrom_eq (values : List Truth) : ∀ isUnknown,
    orFrom isUnknown values = Kleene.or (if isUnknown then none else some false) (Kleene.any values) := by
  induction values with
  | nil => intro isUnknown; cases isUnknown <;> rfl
  | cons value values ih =>
    intro isUnknown
    rw [Kleene.any_cons]
    rcases value with _ | _ | _
    · rw [orFrom, ih]
      cases isUnknown <;> rcases Kleene.any values with _ | _ | _ <;> rfl
    · rw [orFrom, ih, Kleene.false_or]
    · cases isUnknown <;> rfl

theorem logicalOr_eq (values : List Truth) : logicalOr values = Kleene.any values :=
  (orFrom_eq values false).trans Kleene.false_or

theorem evaluateItems_append (items items' : List (MediaCondition Leaf)) :
    evaluateItems environment (items ++ items') =
      evaluateItems environment items ++ evaluateItems environment items' := by
  induction items with
  | nil => rfl
  | cons item items ih => rw [List.cons_append, evaluateItems, ih]; rfl

/-- The condition that the loop returns has the value of its level. -/
theorem evaluateCondition_finish (joiner : Option Joiner) (conditions : List (MediaCondition Leaf)) :
    evaluateCondition environment (finishCondition (joiner.map Joiner.isOr) conditions) =
      connective joiner (evaluateItems environment conditions) := by
  unfold finishCondition
  split
  next condition =>
    rcases joiner with _ | _ | _
    · exact Kleene.all_singleton.symm
    · exact Kleene.all_singleton.symm
    · exact Kleene.any_singleton.symm
  next =>
    rcases joiner with _ | _ | _
    · exact logicalAnd_eq _
    · exact logicalAnd_eq _
    · exact logicalOr_eq _

/-! ## Parsing a tree -/

/-- The value of a feature on the device. -/
def valueOf (features : Features Leaf) (environment : MediaEnvironment Leaf) (f : Feature) : Truth :=
  evaluateCondition environment (features.parseMediaFeature f.text)

/-- The parser for what stands between parentheses. -/
def parseOperand (features : Features Leaf) (limit : Nat) :
    Text → Option (MediaCondition Leaf × Text) :=
  parseParenthesized features fun inner => parseConditionWithin features limit inner true

/-- A condition in parentheses is parsed to what it says, whatever is behind it. -/
def OperandParsed (features : Features Leaf) (environment : MediaEnvironment Leaf) (limit : Nat)
    (c : Condition) : Prop :=
  ∃ result : Option (MediaCondition Leaf),
    (∀ rest, parseOperand features limit (enclosed c.inner ++ rest) = result.map (·, rest)) ∧
    result.map (evaluateCondition environment) = c.meaning true (valueOf features environment)

/-- The loop carries the conditions in front on to the meaning of the level. -/
def ChainParsed (features : Features Leaf) (environment : MediaEnvironment Leaf) (limit : Nat)
    (others : Chain) : Prop :=
  ∀ (allowOr : Bool) (passes : Nat) (front : Option Joiner) (conditions : List (MediaCondition Leaf)),
    others.write.length ≤ passes →
    (parseJoined (parseOperand features limit) allowOr passes conditions (front.map Joiner.isOr)
      others.write).map (evaluateCondition environment) =
    if others.wellFormed allowOr front then
      some (connective (others.joiner.or front)
        (evaluateItems environment conditions ++ others.values (valueOf features environment)))
    else none

theorem Chain.joiner_of_wellFormed {allowOr : Bool} {joiner : Joiner} : ∀ (others : Chain),
    others.wellFormed allowOr (some joiner) = true → others.joiner.or (some joiner) = some joiner
  | .nil, _ => rfl
  | .cons _ _ _, h => by
    simp only [Chain.wellFormed, Bool.and_eq_true] at h
    exact congrArg some (beq_iff_eq.mp h.1.1.2).symm

theorem takeJoiner_keyword (allowOr : Bool) (joiner : Joiner) (rest : Text) :
    takeJoiner allowOr (joiner.keyword ++ ' ' :: rest) =
      if allowOr || joiner == .and then some (joiner.isOr, ' ' :: rest) else none := by
  cases joiner with
  | and =>
    rw [takeJoiner, Joiner.keyword, stripKeywordPrefix_space]
    cases allowOr <;> rfl
  | or =>
    have hnone : stripKeywordPrefix ("or".toList ++ ' ' :: rest) "and".toList = none := by
      cases rest <;> rfl
    rw [takeJoiner, Joiner.keyword, hnone, stripKeywordPrefix_space]
    cases allowOr <;> rfl

variable {limit : Nat} {operand first : Condition} {others : Chain}

theorem chainParsed_nil : ChainParsed features environment limit .nil := by
  intro allowOr passes front conditions _
  unfold parseJoined
  have hfinish := @evaluateCondition_finish _ environment front conditions
  simpa [Chain.write, trimStart, Chain.wellFormed, Chain.joiner, Chain.values] using hfinish

theorem OperandParsed.cases (h : OperandParsed features environment limit operand) :
    (operand.wellFormed true = true ∧ ∃ condition,
      (∀ rest, parseOperand features limit (enclosed operand.inner ++ rest) = some (condition, rest)) ∧
      evaluateCondition environment condition = operand.value (valueOf features environment)) ∨
    (operand.wellFormed true = false ∧
      ∀ rest, parseOperand features limit (enclosed operand.inner ++ rest) = none) := by
  obtain ⟨result, hparse, hresult⟩ := h
  rw [Condition.meaning] at hresult
  cases hformed : operand.wellFormed true with
  | false =>
    rw [hformed, if_neg Bool.false_ne_true, Option.map_eq_none_iff] at hresult
    subst hresult
    exact .inr ⟨rfl, hparse⟩
  | true =>
    rw [hformed, if_pos rfl, Option.map_eq_some_iff] at hresult
    obtain ⟨condition, rfl, hvalue⟩ := hresult
    exact .inl ⟨rfl, condition, hparse, hvalue⟩

theorem trimStart_enclosed (text rest : Text) :
    trimStart (' ' :: (enclosed text ++ rest)) = enclosed text ++ rest :=
  trimStart_space fun ch hch => by cases hch; rfl

theorem chainParsed_cons {joiner : Joiner} (hoperand : OperandParsed features environment limit operand)
    (hothers : ChainParsed features environment limit others) :
    ChainParsed features environment limit (.cons joiner operand others) := by
  intro allowOr passes front conditions hpasses
  have htrim : trimStart (Chain.cons joiner operand others).write =
      joiner.keyword ++ ' ' :: (enclosed operand.inner ++ others.write) :=
    trimStart_space (by cases joiner <;> exact fun ch hch => by cases hch; rfl)
  have hempty : (joiner.keyword ++ ' ' :: (enclosed operand.inner ++ others.write)).isEmpty = false := by
    cases joiner <;> rfl
  have hfront : (front.map Joiner.isOr).any (· != joiner.isOr) = !(front.all (· == joiner)) := by
    rcases front with _ | _ | _ <;> cases joiner <;> rfl
  cases passes with
  | zero => cases hpasses
  | succ passes =>
    have hlength : others.write.length ≤ passes := by
      rw [Chain.write, List.length_cons, List.length_append, List.length_cons,
        List.length_append] at hpasses
      omega
    unfold parseJoined
    rw [htrim, hempty, if_neg Bool.false_ne_true, takeJoiner_keyword, Chain.wellFormed]
    cases hallowed : allowOr || joiner == .and with
    | false => rfl
    | true =>
      rw [if_pos rfl]
      dsimp only [Option.bind_some]
      rw [hfront]
      cases hsame : front.all (· == joiner) with
      | false => rfl
      | true =>
        rw [Bool.not_true, if_neg Bool.false_ne_true, trimStart_enclosed]
        obtain ⟨hformed, condition, hparse, hvalue⟩ | ⟨hformed, hparse⟩ := hoperand.cases
        · have hnext := hothers allowOr passes (some joiner) (conditions ++ [condition]) hlength
          rw [evaluateItems_append, List.append_assoc] at hnext
          rw [hparse, hformed]
          refine hnext.trans ?_
          cases hothersFormed : others.wellFormed allowOr (some joiner) with
          | false => rfl
          | true =>
            rw [others.joiner_of_wellFormed hothersFormed, evaluateItems, hvalue]
            rfl
        · rw [hparse, hformed]
          rfl

theorem parse_not (h : OperandParsed features environment limit operand) (allowOr : Bool) :
    (parseConditionWithin features (limit + 1) (Condition.not operand).inner allowOr).map
        (evaluateCondition environment) =
      (Condition.not operand).meaning allowOr (valueOf features environment) := by
  have hstrip : stripKeywordPrefix (Condition.not operand).inner "not".toList =
      some (' ' :: (enclosed operand.inner ++ [])) :=
    (stripKeywordPrefix_space (enclosed operand.inner)).trans (by rw [List.append_nil])
  rw [parseConditionWithin, hstrip]
  dsimp only
  rw [trimStart_enclosed, ← parseOperand]
  obtain ⟨hformed, condition, hparse, hvalue⟩ | ⟨hformed, hparse⟩ := h.cases
  · rw [hparse, Condition.meaning, Condition.wellFormed, hformed, Condition.value, ← hvalue]
    rfl
  · rw [hparse, Condition.meaning, Condition.wellFormed, hformed]
    rfl

theorem parse_chain (hfirst : OperandParsed features environment limit first)
    (hothers : ChainParsed features environment limit others) (allowOr : Bool) :
    (parseConditionWithin features (limit + 1) (Condition.chain first others).inner allowOr).map
        (evaluateCondition environment) =
      (Condition.chain first others).meaning allowOr (valueOf features environment) := by
  have hstrip : stripKeywordPrefix (Condition.chain first others).inner "not".toList = none :=
    stripKeywordPrefix_paren (by decide)
  rw [parseConditionWithin, hstrip]
  dsimp only
  rw [← parseOperand, Condition.inner]
  obtain ⟨hformed, condition, hparse, hvalue⟩ | ⟨hformed, hparse⟩ := hfirst.cases
  · have hall := hothers allowOr others.write.length none [condition] le_rfl
    rw [hparse, Condition.meaning, Condition.wellFormed, hformed, Bool.true_and, Condition.value, ← hvalue]
    rw [Option.or_none] at hall
    exact hall
  · rw [hparse, Condition.meaning, Condition.wellFormed, hformed]
    rfl

/-- A condition that is parsed behind the first character of its text is so in parentheses. -/
theorem operandParsed_of_inner {c : Condition}
    (hnested : c.inner.head? = some '(' ∨ (stripKeywordPrefix c.inner "not".toList).isSome)
    (h : (parseConditionWithin features limit c.inner true).map (evaluateCondition environment) =
      c.meaning true (valueOf features environment)) :
    OperandParsed features environment limit c := by
  refine ⟨_, fun rest => ?_, h⟩
  have hne : c.inner ≠ [] := by
    rintro hnil
    rw [hnil] at hnested
    exact absurd hnested (by decide)
  rw [parseOperand, parseParenthesized_enclosed c.balanced_inner c.trim_inner hne, if_pos hnested]

mutual

/-- A nested condition is shorter than what it is nested in, so that the bound is no restriction. -/
theorem Condition.operandParsed : ∀ (c : Condition) {limit : Nat}, c.inner.length ≤ limit →
    OperandParsed features environment limit c
  | .feature f, _, _ => by
    refine ⟨some (features.parseMediaFeature f.text), fun rest => ?_, rfl⟩
    have hnested : ¬ (f.text.head? = some '(' ∨
        (stripKeywordPrefix f.text "not".toList).isSome) := by
      rintro (hparen | hnot)
      · exact f.notNested.1 hparen
      · rw [f.notNested.2] at hnot
        cases hnot
    rw [parseOperand, Condition.inner,
      parseParenthesized_enclosed f.balanced f.trimmed f.nonempty, if_neg hnested]
  | .not operand, 0, h => by
    rw [Condition.inner, List.length_append] at h
    exact absurd h (by simp)
  | .not operand, limit + 1, h => by
    have hlength : operand.inner.length ≤ limit := by
      simp only [Condition.inner, enclosed, List.length_append, List.length_cons] at h
      omega
    have hstrip : stripKeywordPrefix (Condition.not operand).inner "not".toList =
        some (' ' :: enclosed operand.inner) := stripKeywordPrefix_space (enclosed operand.inner)
    exact operandParsed_of_inner (.inr (congrArg Option.isSome hstrip))
      (parse_not (operand.operandParsed hlength) true)
  | .chain first others, 0, h => by
    cases h
  | .chain first others, limit + 1, h => by
    simp only [Condition.inner, enclosed, List.length_append, List.length_cons] at h
    exact operandParsed_of_inner (.inl rfl)
      (parse_chain (first.operandParsed (by omega)) (others.chainParsed (by omega)) true)

theorem Chain.chainParsed : ∀ (others : Chain) {limit : Nat}, others.write.length ≤ limit →
    ChainParsed features environment limit others
  | .nil, _, _ => chainParsed_nil
  | .cons joiner operand others, _, h => by
    simp only [Chain.write, enclosed, List.length_append, List.length_cons] at h
    exact chainParsed_cons (operand.operandParsed (by omega)) (others.chainParsed (by omega))

end

/-- A condition is parsed to what it says, and rejected if it says nothing. -/
theorem Condition.parse_write (c : Condition) (allowOr : Bool) :
    (parseCondition features c.write allowOr).map (evaluateCondition environment) =
      c.meaning allowOr (valueOf features environment) := by
  cases c with
  | feature f =>
    have hwrite : (Condition.feature f).write = (Condition.chain (.feature f) .nil).inner := by
      rw [Condition.inner, Chain.write, List.append_nil]
      rfl
    have hlength : f.text.length ≤ (Condition.feature f).write.length := by
      simp only [Condition.write, enclosed, List.length_cons, List.length_append]
      omega
    have hparse := parse_chain ((Condition.feature f).operandParsed hlength)
      (@chainParsed_nil _ features environment _) allowOr
    rw [← hwrite] at hparse
    refine hparse.trans (congrArg some ?_)
    exact Kleene.all_singleton
  | not operand =>
    refine parse_not (operand.operandParsed ?_) allowOr
    simp only [Condition.write, Condition.inner, enclosed, List.length_append, List.length_cons]
    omega
  | chain first others =>
    have hlength : (Condition.chain first others).write.length =
        first.inner.length + 2 + others.write.length := by
      simp only [Condition.write, Condition.inner, enclosed, List.length_append, List.length_cons, List.length_nil]
    exact parse_chain (first.operandParsed (by omega)) (others.chainParsed (by omega)) allowOr

/-! ## Queries -/

/-- A media type, in any case. -/
structure TypeName (features : Features Leaf) where
  text : Text
  nonempty : text ≠ []
  valid : ∀ ch ∈ text, isTypeChar features ch = true ∧ Text.isWhitespace ch = false
  notReserved : reservedTypes.any (Text.eqIgnoreAsciiCase text) = false

/-- What stands in front of a media type. -/
inductive Modifier
  | none
  | not
  | only
deriving DecidableEq, Repr

namespace Modifier

def text : Modifier → Text
  | none => []
  | not => "not ".toList
  | only => "only ".toList

def apply : Modifier → Truth → Truth
  | not, value => Kleene.not value
  | _, value => value

end Modifier

/-- A media query: a condition, or a media type with or without one. -/
inductive WrittenQuery (features : Features Leaf)
  | condition (c : Condition)
  | typed (modifier : Modifier) (name : TypeName features) (clause : Option Condition)

namespace WrittenQuery

/-- What stands behind a media type. -/
def tail : Option Condition → Text
  | none => []
  | some c => " and ".toList ++ c.write

def write : WrittenQuery features → Text
  | condition c => c.write
  | typed modifier name clause => modifier.text ++ (name.text ++ tail clause)

/-- The meaning of what stands behind a media type. -/
def tailMeaning (valueOf : Feature → Truth) : Option Condition → Option Truth
  | none => some (some true)
  | some c => c.meaning false valueOf

/-- What a query says on a device. -/
def meaning (environment : MediaEnvironment Leaf) : WrittenQuery features → Option Truth
  | condition c => c.meaning true (valueOf features environment)
  | typed modifier name clause =>
    (tailMeaning (valueOf features environment) clause).map fun value => modifier.apply
      (Kleene.and (some (typeMatches environment (some (Text.toAsciiLowercase name.text)))) value)

end WrittenQuery

theorem logicalAnd_unpackConjunction (condition : MediaCondition Leaf) :
    logicalAnd (evaluateItems environment (unpackConjunction condition)) =
      evaluateCondition environment condition := by
  cases condition with
  | all items => rfl
  | not inner => exact (logicalAnd_eq _).trans Kleene.all_singleton
  | any items => exact (logicalAnd_eq _).trans Kleene.all_singleton
  | feature leaf => exact (logicalAnd_eq _).trans Kleene.all_singleton

/-- A name ends at a space or with the text, so that it is a keyword or none is in front. -/
theorem stripKeywordPrefix_name {name tail keyword : Text}
    (hname : ∀ ch ∈ name, Text.isWhitespace ch = false)
    (htail : ∀ ch ∈ tail.head?, Text.isWhitespace ch = true)
    (hkeyword : ∀ ch ∈ Text.toAsciiLowercase keyword, Text.isWhitespace ch = false)
    (hne : Text.eqIgnoreAsciiCase name keyword = false) :
    stripKeywordPrefix (name ++ tail) keyword = none := by
  rw [stripKeywordPrefix]
  split
  next heq =>
    have hword : ∀ {front rest : Text}, (∀ ch ∈ front, Text.isWhitespace ch = false) →
        (∀ ch ∈ rest.head?, Text.isWhitespace ch = true) →
          (front ++ rest).takeWhile (!Text.isWhitespace ·) = front := by
      intro front rest hfront hrest
      rw [List.takeWhile_append_of_pos (by simpa using hfront)]
      cases rest with
      | nil => exact List.append_nil front
      | cons ch rest => rw [List.takeWhile_cons_of_neg (by simp [hrest ch rfl]), List.append_nil]
    have hfront : ∀ ch ∈ (name ++ tail).take keyword.length, Text.isWhitespace ch = false := by
      intro ch hch
      rw [← Text.isWhitespace_toLower]
      refine hkeyword _ ?_
      rw [← Text.eqIgnoreAsciiCase_iff.mp heq]
      exact List.mem_map_of_mem hch
    have hsame : (∀ ch ∈ ((name ++ tail).drop keyword.length).head?, Text.isWhitespace ch = true) →
        False := by
      intro hrest
      have hall := hword hfront hrest
      rw [List.take_append_drop, hword hname htail] at hall
      rw [← hall, hne] at heq
      cases heq
    split
    next hdrop => exact (hsame (by rw [hdrop]; exact fun _ hch => by cases hch)).elim
    next next after hdrop =>
      split
      next hspace =>
        refine (hsame ?_).elim
        rw [hdrop]
        intro ch hch
        cases hch
        exact hspace
      next => rfl
  next => rfl

/-- A query has the value of its conditions together with that of its type. -/
theorem evaluateMediaQuery_eq (environment : MediaEnvironment Leaf) (query : MediaQuery Leaf) :
    evaluateMediaQuery environment query =
      ((if query.negated then Kleene.not else id)
        (Kleene.and (some (typeMatches environment query.mediaType))
          (logicalAnd (evaluateItems environment query.conditions))) == some true) := by
  rw [evaluateMediaQuery]
  cases typeMatches environment query.mediaType with
  | false => cases query.negated <;> rfl
  | true =>
    rw [Kleene.true_and]
    cases query.negated <;> rfl

theorem Condition.head?_write (c : Condition) :
    c.write.head? = some '(' ∨ c.write.head? = some 'n' := by
  cases c with
  | not operand => exact .inr rfl
  | feature f => exact .inl rfl
  | chain first others => exact .inl rfl

theorem Condition.head?_write_solid (c : Condition) :
    ∀ ch ∈ c.write.head?, Text.isWhitespace ch = false := by
  intro ch hch
  rcases c.head?_write with h | h <;> rw [h] at hch <;> cases hch <;> rfl

theorem Condition.getLast?_write (c : Condition) : c.write.getLast? = some ')' := by
  cases c with
  | feature f => exact getLast?_enclosed f.text
  | not operand =>
    rw [Condition.write, Condition.inner, List.getLast?_append, getLast?_enclosed]
    · rfl
    · exact nofun
  | chain first others => exact others.getLast?_write first.inner

theorem head?_tail (clause : Option Condition) :
    ∀ ch ∈ (WrittenQuery.tail clause).head?, ch = ' ' := by
  intro ch hch
  cases clause with
  | none => cases hch
  | some c => cases hch; rfl

theorem parseTypeConditions_tail (clause : Option Condition) :
    (parseTypeConditions features (trimStart (WrittenQuery.tail clause))).map
        (fun conditions => logicalAnd (evaluateItems environment conditions)) =
      WrittenQuery.tailMeaning (valueOf features environment) clause := by
  cases clause with
  | none => rfl
  | some c =>
    have htrim : trimStart (WrittenQuery.tail (some c)) = "and".toList ++ ' ' :: c.write :=
      trimStart_space fun ch hch => by cases hch; rfl
    have hempty : ("and".toList ++ ' ' :: c.write).isEmpty = false := rfl
    rw [htrim, parseTypeConditions, hempty, if_neg Bool.false_ne_true, stripKeywordPrefix_space,
      Option.bind_some, trimStart_space c.head?_write_solid, Option.map_map]
    refine Eq.trans ?_ (c.parse_write false)
    congr 1
    funext condition
    exact logicalAnd_unpackConjunction condition

theorem isTypeChar_ascii {ch : Char} (h : ch.toNat < 128) :
    isTypeChar features ch = (ch.isAlphanum || ch == '-' || ch == '_') := by
  rw [isTypeChar, if_pos h]

theorem takeWhile_name (name : TypeName features) (clause : Option Condition) :
    (name.text ++ WrittenQuery.tail clause).takeWhile (isTypeChar features) = name.text ∧
    (name.text ++ WrittenQuery.tail clause).dropWhile (isTypeChar features) =
      WrittenQuery.tail clause := by
  have hall : ∀ ch ∈ name.text, isTypeChar features ch = true := fun ch hch => (name.valid ch hch).1
  have hspace : isTypeChar features ' ' = false := isTypeChar_ascii (by decide)
  rw [List.takeWhile_append_of_pos hall, List.dropWhile_append_of_pos hall]
  cases clause with
  | none => exact ⟨List.append_nil _, rfl⟩
  | some c =>
    rw [WrittenQuery.tail, show " and ".toList = ' ' :: "and ".toList from rfl, List.cons_append,
      List.takeWhile_cons, List.dropWhile_cons, hspace]
    exact ⟨List.append_nil _, rfl⟩

/-- A query with a type is read to what it says. -/
theorem parseTypedQuery_written (negated : Bool) (name : TypeName features) (clause : Option Condition) :
    (parseTypedQuery features negated (name.text ++ WrittenQuery.tail clause)).map
        (evaluateMediaQuery environment) =
      (WrittenQuery.tailMeaning (valueOf features environment) clause).map fun value =>
        (if negated then Kleene.not else id) (Kleene.and
          (some (typeMatches environment (some (Text.toAsciiLowercase name.text)))) value) == some true := by
  obtain ⟨htake, hdrop⟩ := takeWhile_name name clause
  have hname : (name.text.isEmpty || reservedTypes.any (Text.eqIgnoreAsciiCase name.text)) = false := by
    rw [name.notReserved, Bool.or_false]
    exact List.isEmpty_eq_false_iff.mpr name.nonempty
  rw [parseTypedQuery, htake, hdrop, hname, if_neg Bool.false_ne_true, ← @parseTypeConditions_tail _ features environment,
    Option.map_map, Option.map_map]
  congr 1
  funext conditions
  exact evaluateMediaQuery_eq environment _

theorem TypeName.head? (name : TypeName features) (rest : Text) : ∃ ch ∈ name.text,
    (name.text ++ rest).head? = some ch := by
  cases htext : name.text with
  | nil => exact absurd htext name.nonempty
  | cons ch others => exact ⟨ch, List.mem_cons_self, rfl⟩

theorem TypeName.solid (name : TypeName features) (rest : Text) :
    ∀ ch ∈ (name.text ++ rest).head?, Text.isWhitespace ch = false := by
  obtain ⟨first, hfirst, hhead⟩ := name.head? rest
  intro ch hch
  rw [hhead] at hch
  cases hch
  exact (name.valid first hfirst).2

theorem TypeName.not_paren (name : TypeName features) (rest : Text) :
    (name.text ++ rest).head? ≠ some '(' := by
  obtain ⟨first, hfirst, hhead⟩ := name.head? rest
  rw [hhead]
  intro heq
  have hvalid := (name.valid first hfirst).1
  rw [Option.some.inj heq, isTypeChar_ascii (by decide)] at hvalid
  exact absurd hvalid (by decide)

/-- A reserved word is not in front of a media type. -/
theorem TypeName.not_keyword (name : TypeName features) (clause : Option Condition) {keyword : Text}
    (hkeyword : keyword ∈ reservedTypes) :
    stripKeywordPrefix (name.text ++ WrittenQuery.tail clause) keyword = none := by
  refine stripKeywordPrefix_name (fun ch hch => (name.valid ch hch).2) (fun ch hch => ?_) ?_ ?_
  · rw [head?_tail clause ch hch]
    rfl
  · have hsolid : ∀ keyword ∈ reservedTypes,
        (Text.toAsciiLowercase keyword).all (fun ch => !Text.isWhitespace ch) = true :=
      List.forall_iff_forall_mem.mp (by decide)
    intro ch hch
    simpa using List.all_eq_true.mp (hsolid keyword hkeyword) ch hch
  · exact Bool.eq_false_iff.mpr (List.any_eq_false.mp name.notReserved keyword hkeyword)

theorem WrittenQuery.trim_write (q : WrittenQuery features) : Text.trim q.write = q.write := by
  cases q with
  | condition c =>
    refine Text.trim_eq_self c.head?_write_solid fun ch hch => ?_
    rw [WrittenQuery.write, c.getLast?_write] at hch
    cases hch
    rfl
  | typed modifier name clause =>
    refine Text.trim_eq_self ?_ fun ch hch => ?_
    · cases modifier with
      | none => exact name.solid _
      | not | only => exact fun ch hch => by cases hch; rfl
    · rw [WrittenQuery.write, List.getLast?_append, List.getLast?_append] at hch
      cases clause with
      | none =>
        rw [WrittenQuery.tail, List.getLast?_nil, Option.none_or,
          List.getLast?_eq_some_getLast name.nonempty] at hch
        cases hch
        exact (name.valid _ (List.getLast_mem name.nonempty)).2
      | some c =>
        rw [WrittenQuery.tail, List.getLast?_append, c.getLast?_write] at hch
        cases hch
        rfl

/-- The white space behind a modifier is not seen. -/
theorem parseSingleMediaQuery_typed (modifier : Modifier) (name : TypeName features)
    (clause : Option Condition) :
    parseSingleMediaQuery features (WrittenQuery.typed modifier name clause).write =
      parseTypedQuery features (modifier == .not) (name.text ++ WrittenQuery.tail clause) := by
  have htrim : trimStart (' ' :: (name.text ++ WrittenQuery.tail clause)) =
      name.text ++ WrittenQuery.tail clause := trimStart_space (name.solid _)
  have hnot : stripKeywordPrefix (WrittenQuery.typed modifier name clause).write "not".toList =
      if modifier = .not then some (' ' :: (name.text ++ WrittenQuery.tail clause)) else none := by
    cases modifier with
    | none => exact name.not_keyword clause (by decide)
    | not => exact stripKeywordPrefix_space (name.text ++ WrittenQuery.tail clause)
    | only => rfl
  have hparen : (WrittenQuery.typed modifier name clause).write.head? ≠ some '(' := by
    cases modifier with
    | none => exact name.not_paren _
    | not | only => exact fun h => by cases h
  rw [parseSingleMediaQuery, WrittenQuery.trim_write, hnot]
  dsimp only
  rw [if_neg]
  · cases modifier with
    | none =>
      have honly : stripKeywordPrefix (WrittenQuery.typed .none name clause).write "only".toList =
          none := name.not_keyword clause (by decide)
      rw [honly]
      exact congrArg (parseTypedQuery features false) (trimStart_eq_self (name.solid _))
    | not => exact congrArg (parseTypedQuery features true) htrim
    | only =>
      have honly : stripKeywordPrefix (WrittenQuery.typed .only name clause).write "only".toList =
          some (' ' :: (name.text ++ WrittenQuery.tail clause)) :=
        stripKeywordPrefix_space (name.text ++ WrittenQuery.tail clause)
      rw [honly]
      exact congrArg (parseTypedQuery features false) htrim
  · rintro (hhead | hnested)
    · exact hparen hhead
    · cases modifier with
      | none | only => cases hnested
      | not =>
        rw [if_pos rfl, Option.any_some, htrim] at hnested
        exact name.not_paren _ (beq_iff_eq.mp hnested)

/-- A query is parsed to what it says, and it matches if that is true. -/
theorem WrittenQuery.parse_write (q : WrittenQuery features) :
    (parseSingleMediaQuery features q.write).map (evaluateMediaQuery environment) =
      (q.meaning environment).map (· == some true) := by
  cases q with
  | condition c =>
    have hbranch : c.write.head? = some '(' ∨ (stripKeywordPrefix c.write "not".toList).any
        (fun rest => (trimStart rest).head? == some '(') = true := by
      cases c with
      | feature f => exact .inl rfl
      | chain first others => exact .inl rfl
      | not operand =>
        have hstrip : stripKeywordPrefix (Condition.not operand).write "not".toList =
            some (' ' :: enclosed operand.inner) := stripKeywordPrefix_space (enclosed operand.inner)
        rw [hstrip]
        exact .inr rfl
    rw [parseSingleMediaQuery, WrittenQuery.trim_write, WrittenQuery.write, if_pos hbranch,
      WrittenQuery.meaning, ← @Condition.parse_write _ features environment, Option.map_map, Option.map_map]
    congr 1
    funext condition
    refine (evaluateMediaQuery_eq environment _).trans ?_
    rw [logicalAnd_unpackConjunction, typeMatches, Kleene.true_and]
    rfl
  | typed modifier name clause =>
    rw [parseSingleMediaQuery_typed, parseTypedQuery_written, WrittenQuery.meaning, Option.map_map]
    congr 1
    funext value
    cases modifier <;> rfl

end Omoikane.Css.Media
