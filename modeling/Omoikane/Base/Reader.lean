import Omoikane.Base.Utf8

/-!
# Reading from a byte stream

A stream is the bytes that are still to come, and a reader returns what it read
with the bytes after it.  `Reads f used a` says that `f` reads exactly `used`,
whatever follows; such readers compose (`Reads.bind`).

Lines end in a line feed, and the last one may lack it.  Only a line that has it
is read alike when more bytes arrive (`readLine_terminated`,
`readLine_unterminated`).
-/

namespace Base

/-- `f` reads exactly `used`, whatever follows. -/
def Reads {ε α : Type} (f : Bytes → Except ε (α × Bytes)) (used : Bytes) (a : α) : Prop :=
  ∀ rest, f (used ++ rest) = .ok (a, rest)

theorem Reads.nil {ε α : Type} (a : α) :
    Reads (fun s => (.ok (a, s) : Except ε (α × Bytes))) [] a := fun _ => rfl

/-- `f` cuts `a` off the front of a stream and does not look at the rest. -/
def Cuts {ε α : Type} (f : Bytes → Except ε (α × Bytes)) (s : Bytes) (a : α) (rest : Bytes) :
    Prop :=
  ∃ used, s = used ++ rest ∧ Reads f used a

theorem Cuts.nil {ε α : Type} (a : α) (s : Bytes) :
    Cuts (fun s => (.ok (a, s) : Except ε (α × Bytes))) s a s := ⟨[], rfl, Reads.nil a⟩

/-- A step that reads nothing after the cut. -/
theorem Cuts.map {ε α β : Type} {f : Bytes → Except ε (α × Bytes)} {g : α → Except ε β}
    {s rest : Bytes} {a : α} {b : β} (hf : Cuts f s a rest) (hg : g a = .ok b) :
    Cuts (fun s => f s >>= fun p => g p.1 >>= fun b => .ok (b, p.2)) s b rest := by
  obtain ⟨used, hs, hused⟩ := hf
  refine ⟨used, hs, fun more => ?_⟩
  simp only [hused more, ok_bind, hg]

namespace Bytes

/-! ## Exact counts -/

/-- `read_exact`: `n` bytes, or `none` at the end of the stream. -/
def readExact (n : Nat) (s : Bytes) : Option (Bytes × Bytes) :=
  if s.length < n then none else some (s.take n, s.drop n)

theorem readExact_append (part rest : Bytes) :
    (part ++ rest).readExact part.length = some (part, rest) := by
  unfold readExact
  rw [if_neg (by rw [List.length_append]; omega), List.take_left, List.drop_left]

theorem readExact_eq_some {n : Nat} {s part rest : Bytes} (h : s.readExact n = some (part, rest)) :
    s = part ++ rest ∧ part.length = n := by
  unfold readExact at h
  split at h
  · cases h
  next hle =>
    cases h
    exact ⟨(List.take_append_drop n s).symm, by rw [List.length_take]; omega⟩

/-! ## Lines of bytes -/

/-- The bytes through the first line feed, or all of them, and the rest. -/
def cutLine : Bytes → Bytes × Bytes
  | [] => ([], [])
  | b :: s =>
    if b = 0x0A then ([b], s)
    else ((b :: (cutLine s).1), (cutLine s).2)

theorem cutLine_append : ∀ (s : Bytes), (cutLine s).1 ++ (cutLine s).2 = s
  | [] => rfl
  | b :: s => by
    unfold cutLine
    split
    · rfl
    · rw [List.cons_append, cutLine_append s]

/-- A line that ends in a line feed is cut off whatever follows. -/
theorem cutLine_terminated : ∀ {line : Bytes} (rest : Bytes), 0x0A ∉ line →
    cutLine (line ++ 0x0A :: rest) = (line ++ [0x0A], rest)
  | [], rest, _ => rfl
  | b :: line, rest, h => by
    have hb : b ≠ 0x0A := fun hb => h (hb ▸ List.mem_cons_self ..)
    rw [List.cons_append, cutLine, if_neg hb,
      cutLine_terminated rest fun hm => h (List.mem_cons_of_mem _ hm)]
    rfl

theorem cutLine_unterminated : ∀ {line : Bytes}, 0x0A ∉ line → cutLine line = (line, [])
  | [], _ => rfl
  | b :: line, h => by
    have hb : b ≠ 0x0A := fun hb => h (hb ▸ List.mem_cons_self ..)
    rw [cutLine, if_neg hb, cutLine_unterminated fun hm => h (List.mem_cons_of_mem _ hm)]

/-- A line either ends in its only line feed or is the last one. -/
theorem cutLine_cases : ∀ (s : Bytes),
    (∃ line rest, s = line ++ 0x0A :: rest ∧ 0x0A ∉ line ∧ cutLine s = (line ++ [0x0A], rest)) ∨
      (0x0A ∉ s ∧ cutLine s = (s, []))
  | [] => Or.inr ⟨List.not_mem_nil, rfl⟩
  | b :: s => by
    by_cases hb : b = 0x0A
    · exact Or.inl ⟨[], s, by rw [hb]; rfl, List.not_mem_nil, by rw [cutLine, if_pos hb, hb]; rfl⟩
    · rcases cutLine_cases s with ⟨line, rest, rfl, hline, hcut⟩ | ⟨hs, hcut⟩
      · refine Or.inl ⟨b :: line, rest, rfl, ?_, by rw [cutLine, if_neg hb, hcut]; rfl⟩
        simpa [Ne.symm hb] using hline
      · refine Or.inr ⟨?_, by rw [cutLine, if_neg hb, hcut]⟩
        simpa [Ne.symm hb] using hs

/-! ## Lines of text -/

/-- `read_line`: the text of the next line with its line feed; `none` if it is
not valid UTF-8. -/
def readLine (s : Bytes) : Option (Text × Bytes) :=
  (Utf8.decode (cutLine s).1).map fun line => (line, (cutLine s).2)

/-- The line has its line feed. -/
def Terminated (line : Text) : Prop := line.getLast? = some '\n'

instance (line : Text) : Decidable (Terminated line) := inferInstanceAs (Decidable (_ = _))

theorem lineFeed_not_mem_encode {line : Text} (h : '\n' ∉ line) : 0x0A ∉ Utf8.encode line := by
  intro hm
  obtain ⟨c, hc, hn⟩ := Utf8.mem_encode (by decide) hm
  have hchar : c = '\n' := Char.toNat_inj.mp hn
  exact h (hchar ▸ hc)

/-- A line of text with its line feed is read whatever follows. -/
theorem readLine_encode {line : Text} (h : '\n' ∉ line) (rest : Bytes) :
    readLine (Utf8.encode (line ++ ['\n']) ++ rest) = some (line ++ ['\n'], rest) := by
  have hcut : cutLine (Utf8.encode (line ++ ['\n']) ++ rest) =
      (Utf8.encode (line ++ ['\n']), rest) := by
    rw [Utf8.encode_append]
    have henc : Utf8.encode ['\n'] = [0x0A] := by decide
    rw [henc, List.append_assoc, List.singleton_append,
      cutLine_terminated rest (lineFeed_not_mem_encode h)]
  rw [readLine, hcut, Utf8.decode_encode]
  rfl

/-- What is known of a line that was read. -/
theorem readLine_eq_some {s rest : Bytes} {line : Text} (h : readLine s = some (line, rest)) :
    s = Utf8.encode line ++ rest ∧
      ((∃ front, line = front ++ ['\n'] ∧ '\n' ∉ front) ∨ ('\n' ∉ line ∧ rest = [])) := by
  obtain ⟨text, hdecode, hpair⟩ := Option.map_eq_some_iff.mp h
  cases hpair
  rw [Utf8.decode_eq_some] at hdecode
  refine ⟨by rw [← hdecode, cutLine_append], ?_⟩
  have hmem : '\n' ∈ line → 0x0A ∈ Utf8.encode line := by
    intro hm
    refine List.mem_flatMap.mpr ⟨'\n', hm, ?_⟩
    decide
  rcases cutLine_cases s with ⟨front, rest, rfl, hfront, hcut⟩ | ⟨hs, hcut⟩
  · left
    rw [hcut] at hdecode
    have henc : Utf8.encode ['\n'] = [0x0A] := by decide
    have hd : Utf8.decode (front ++ Utf8.encode ['\n']) = some line := by
      rw [henc]
      exact Utf8.decode_eq_some.mpr hdecode
    rw [Utf8.decode_append_singleton (by decide)] at hd
    obtain ⟨text, htext, rfl⟩ := Option.map_eq_some_iff.mp hd
    refine ⟨text, rfl, fun hm => hfront ?_⟩
    rw [Utf8.decode_eq_some.mp htext]
    refine List.mem_flatMap.mpr ⟨'\n', hm, ?_⟩
    decide
  · right
    rw [hcut] at hdecode
    have hline : s = Utf8.encode line := hdecode
    refine ⟨fun hm => hs ?_, by rw [hcut]⟩
    rw [hline]
    exact hmem hm

/-- A line with its line feed is read alike whatever follows. -/
theorem readLine_terminated {s rest : Bytes} {line : Text} (h : readLine s = some (line, rest))
    (hline : Terminated line) :
    s = Utf8.encode line ++ rest ∧
      ∀ more, readLine (Utf8.encode line ++ more) = some (line, more) := by
  obtain ⟨hs, ⟨front, rfl, hfront⟩ | ⟨hno, -⟩⟩ := readLine_eq_some h
  · exact ⟨hs, readLine_encode hfront⟩
  · exact absurd (List.mem_of_getLast? hline) hno

/-- A line without its line feed is the last, and one more byte can spoil it. -/
theorem readLine_unterminated {s rest : Bytes} {line : Text} (h : readLine s = some (line, rest))
    (hline : ¬ Terminated line) :
    s = Utf8.encode line ∧ rest = [] ∧ readLine (s ++ [0xFF]) = none := by
  obtain ⟨hs, ⟨front, rfl, -⟩ | ⟨hno, rfl⟩⟩ := readLine_eq_some h
  · exact absurd (by simp [Terminated]) hline
  · rw [List.append_nil] at hs
    refine ⟨hs, rfl, ?_⟩
    have hmem : (0x0A : UInt8) ∉ s ++ [0xFF] := by
      rw [hs, List.mem_append, not_or]
      exact ⟨lineFeed_not_mem_encode hno, by decide⟩
    have hbad : Utf8.decode [0xFF] = none := by decide
    rw [readLine, cutLine_unterminated hmem, hs, Utf8.decode_encode_append, hbad]
    rfl

/-- Reading a nonempty line makes progress. -/
theorem readLine_length_lt {s rest : Bytes} {line : Text} (h : readLine s = some (line, rest))
    (hline : line ≠ []) : rest.length < s.length := by
  obtain ⟨hs, -⟩ := readLine_eq_some h
  cases line with
  | nil => exact absurd rfl hline
  | cons c line =>
    have hc : 0 < (String.utf8EncodeChar c).length := by
      rw [String.length_utf8EncodeChar]
      exact Char.utf8Size_pos c
    rw [hs, Utf8.encode_cons, List.length_append, List.length_append]
    omega

end Bytes

end Base
