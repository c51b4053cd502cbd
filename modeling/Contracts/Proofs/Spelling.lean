import Contracts.Proofs.Numerals

/-!
# Contracts.Proofs.Spelling

The leaves of JSON text: how strings and numbers may be spelled.

* `Spelling`         — the ways to write one piece of a string: itself, a short escape, or four
  digits in base 16.
* `SpellsString`     — a string between its quotes, piece by piece.
* `NumberText`       — a number: sign, whole part, fraction and exponent.
* `scanString_spelled`, `scanNumber_spelled` — the readers of the leaves read every spelling.
* `exists_spelling`, `exists_numberText`     — and nothing else.
* `numberText_of_numberValue?` — what denotes a number is a number literal.
-/

namespace Contracts
namespace Json

/-! ## Strings -/

/-- A way to write a piece of a string. -/
inductive Spelling : Piece → List Char → Prop where
  | plain {c : Char} (hquote : c ≠ '\"') (hslash : c ≠ '\\') (hcontrol : ¬c.toNat < 32) :
      Spelling (.char c) [c]
  | short {c d : Char} (h : shortEscape? c = some d) : Spelling (.char d) ['\\', c]
  | unit {a b c d : Char} {n : Nat} (h : hex4? a b c d = some n) :
      Spelling (.ofUnit n) ['\\', 'u', a, b, c, d]

/-- The pieces of a string, one after the other. -/
inductive SpellsPieces : List Piece → List Char → Prop where
  | nil : SpellsPieces [] []
  | cons {p : Piece} {ps : List Piece} {cs cs' : List Char} (h : Spelling p cs)
      (hs : SpellsPieces ps cs') : SpellsPieces (p :: ps) (cs ++ cs')

/-- A string with its quotes. What it denotes depends on the pieces alone. -/
inductive SpellsString : Literal → List Char → Prop where
  | quoted {ps : List Piece} {cs : List Char} (h : SpellsPieces ps cs) :
      SpellsString ((joinPieces ps).map String.ofList) ('\"' :: (cs ++ ['\"']))

/-- What reading a string makes of the rest once a character is read. -/
def withPiece (p : Piece) (r : Option (List Piece × List Char)) :
    Option (List Piece × List Char) :=
  r.map fun (ps, rest) => (p :: ps, rest)

theorem bind_eq_withPiece (p : Piece) (r : Option (List Piece × List Char)) :
    (do let (ps, rest) ← r; pure (p :: ps, rest)) = withPiece p r := by
  cases r <;> rfl

theorem scanString_short {c d : Char} (hc : shortEscape? c = some d) (hu : c ≠ 'u')
    (rest : List Char) : scanString ('\\' :: c :: rest) = withPiece (.char d) (scanString rest) := by
  rw [scanString, hc]
  · exact bind_eq_withPiece _ _
  · exact fun _ _ _ _ _ h _ => hu h

theorem scanString_hex {a b c d : Char} {n : Nat} (hn : hex4? a b c d = some n)
    (rest : List Char) : scanString ('\\' :: 'u' :: a :: b :: c :: d :: rest) =
      withPiece (.ofUnit n) (scanString rest) := by
  rw [scanString, hn]
  exact bind_eq_withPiece _ _

theorem scanString_plain {c : Char} (hquote : c ≠ '\"') (hslash : c ≠ '\\') (hc : ¬c.toNat < 32)
    (rest : List Char) : scanString (c :: rest) = withPiece (.char c) (scanString rest) := by
  rw [scanString, if_neg hc]
  · exact bind_eq_withPiece _ _
  · exact hquote
  · exact fun _ _ _ _ _ h _ => hslash h
  · exact fun _ _ h _ => hslash h

theorem ne_of_shortEscape? {c d : Char} (h : shortEscape? c = some d) : c ≠ 'u' := by
  rintro rfl
  cases h

theorem scanString_spelling {p : Piece} {cs : List Char} (h : Spelling p cs) (rest : List Char) :
    scanString (cs ++ rest) = withPiece p (scanString rest) := by
  cases h with
  | plain hquote hslash hcontrol => exact scanString_plain hquote hslash hcontrol rest
  | short h => exact scanString_short h (ne_of_shortEscape? h) rest
  | unit h => exact scanString_hex h rest

theorem scanString_spelled {ps : List Piece} {cs : List Char} (h : SpellsPieces ps cs)
    (rest : List Char) : scanString (cs ++ '\"' :: rest) = some (ps, rest) := by
  induction h with
  | nil => rfl
  | cons h _ ih =>
    rw [List.append_assoc, scanString_spelling h, ih]
    rfl

theorem stringText?_spelled {s : Literal} {cs : List Char} (h : SpellsString s ('\"' :: cs))
    (rest : List Char) : stringText? (cs ++ rest) = some (s, rest) := by
  obtain ⟨h⟩ := h
  rw [List.append_assoc, List.singleton_append, stringText?, scanString_spelled h]
  rfl

theorem withPiece_eq_some {p : Piece} {r : Option (List Piece × List Char)} {ps : List Piece}
    {rest : List Char} (h : withPiece p r = some (ps, rest)) :
    ∃ ps', r = some (ps', rest) ∧ ps = p :: ps' := by
  obtain ⟨⟨ps', rest'⟩, hr, heq⟩ := Option.map_eq_some_iff.mp h
  cases heq
  exact ⟨ps', hr, rfl⟩

/-- What is read as a string was spelled as one. -/
theorem exists_pieces {cs : List Char} {ps : List Piece} {rest : List Char}
    (h : scanString cs = some (ps, rest)) :
    ∃ text, SpellsPieces ps text ∧ cs = text ++ '\"' :: rest := by
  -- one more piece in front of a spelled string
  have onward : ∀ {p : Piece} {cs₁ cs₂ : List Char} {ps : List Piece}, Spelling p cs₁ →
      withPiece p (scanString cs₂) = some (ps, rest) →
      (∀ {ps'}, scanString cs₂ = some (ps', rest) →
        ∃ text, SpellsPieces ps' text ∧ cs₂ = text ++ '\"' :: rest) →
      ∃ text, SpellsPieces ps text ∧ cs₁ ++ cs₂ = text ++ '\"' :: rest := by
    intro p cs₁ cs₂ ps hp hscan ih
    obtain ⟨ps', hps', rfl⟩ := withPiece_eq_some hscan
    obtain ⟨text, htext, rfl⟩ := ih hps'
    exact ⟨cs₁ ++ text, .cons hp htext, (List.append_assoc _ _ _).symm⟩
  induction cs using scanString.induct generalizing ps with
  | case1 => cases h
  | case2 rest' =>
    cases h
    exact ⟨[], .nil, rfl⟩
  | case3 a b c d cs ih =>
    cases hn : hex4? a b c d with
    | none =>
      rw [scanString, hn] at h
      cases h
    | some n =>
      rw [scanString_hex hn] at h
      exact onward (.unit hn) h ih
  | case4 c cs hc ih =>
    cases hd : shortEscape? c with
    | none =>
      rw [scanString, hd] at h
      · cases h
      · exact hc
    | some d =>
      rw [scanString_short hd (ne_of_shortEscape? hd)] at h
      exact onward (.short hd) h ih
  | case5 c cs hquote hunit hshort hcontrol =>
    rw [scanString, if_pos hcontrol] at h
    · cases h
    · exact hquote
    · exact hunit
    · exact hshort
  | case6 c cs hquote hunit hshort hcontrol ih =>
    by_cases hslash : c = '\\'
    · -- a backslash at the end of the text
      cases cs with
      | nil =>
        subst hslash
        cases h
      | cons d cs => exact absurd rfl (hshort d cs hslash)
    · rw [scanString_plain hquote hslash hcontrol] at h
      exact onward (.plain hquote hslash hcontrol) h ih

theorem exists_spelling {cs : List Char} {s : Literal} {rest : List Char}
    (h : stringText? cs = some (s, rest)) :
    ∃ text, SpellsString s ('\"' :: text) ∧ cs = text ++ rest := by
  obtain ⟨⟨ps, rest'⟩, hscan, heq⟩ := Option.map_eq_some_iff.mp h
  cases heq
  obtain ⟨text, htext, rfl⟩ := exists_pieces hscan
  exact ⟨text ++ ['\"'], .quoted htext, by simp⟩

/-! ## Numbers -/

def AreDigits (ds : List Char) : Prop := ds ≠ [] ∧ ∀ c ∈ ds, c.isDigit

inductive SignText : List Char → Prop where
  | plus : SignText []
  | minus : SignText ['-']

/-- A zero in front stands alone. -/
inductive WholeText : List Char → Prop where
  | zero : WholeText ['0']
  | digits {ds : List Char} (h : AreDigits ds) (hhead : ds.head? ≠ some '0') : WholeText ds

inductive FractionText : List Char → Prop where
  | none : FractionText []
  | digits {ds : List Char} (h : AreDigits ds) : FractionText ('.' :: ds)

inductive ExponentText : List Char → Prop where
  | none : ExponentText []
  | digits {mark : Char} {sign ds : List Char} (hmark : mark = 'e' ∨ mark = 'E')
      (hsign : sign = [] ∨ sign = ['+'] ∨ sign = ['-']) (h : AreDigits ds) :
      ExponentText (mark :: (sign ++ ds))

/-- A number literal: the parts, one after the other. -/
inductive NumberText : List Char → Prop where
  | parts {sign whole fraction exponent : List Char} (hsign : SignText sign)
      (hwhole : WholeText whole) (hfraction : FractionText fraction)
      (hexponent : ExponentText exponent) :
      NumberText (sign ++ whole ++ fraction ++ exponent)

theorem AreDigits.exists_cons {ds : List Char} (h : AreDigits ds) :
    ∃ c t, ds = c :: t ∧ c.isDigit = true := by
  obtain ⟨c, t, rfl⟩ := List.exists_cons_of_ne_nil h.1
  exact ⟨c, t, rfl, h.2 c List.mem_cons_self⟩

theorem scanDigits_eq_some {cs ds rest : List Char} (h : scanDigits cs = some (ds, rest)) :
    AreDigits ds ∧ cs = ds ++ rest := by
  rw [scanDigits] at h
  split at h
  · cases h
  · next hds =>
    cases h
    refine ⟨⟨hds, List.all_eq_true.mp List.all_takeWhile⟩, ?_⟩
    exact (List.takeWhile_append_dropWhile).symm

/-! Each part is read up to what cannot go on with it. -/

section
variable {rest : List Char}

theorem AreDigits.scan {ds : List Char} (h : AreDigits ds)
    (hrest : ∀ c t, rest = c :: t → c.isDigit = false) :
    scanDigits (ds ++ rest) = some (ds, rest) :=
  Numeral.scanDigits_append h.1 h.2 hrest

theorem WholeText.exists_head {whole : List Char} (h : WholeText whole) :
    ∃ c t, whole = c :: t ∧ c.isDigit = true := by
  cases h with
  | zero => exact ⟨'0', [], rfl, rfl⟩
  | digits h _ => exact h.exists_cons

theorem SignText.scan {sign whole : List Char} (h : SignText sign) (hwhole : WholeText whole)
    (rest : List Char) : scanSign (sign ++ (whole ++ rest)) = (sign, whole ++ rest) := by
  cases h with
  | minus => rfl
  | plus =>
    obtain ⟨c, t, rfl, hc⟩ := hwhole.exists_head
    rw [List.nil_append, List.cons_append]
    unfold scanSign
    split
    · next heq =>
      cases heq
      cases hc
    · rfl

theorem WholeText.scan {whole : List Char} (h : WholeText whole)
    (hrest : ∀ c t, rest = c :: t → c.isDigit = false) :
    scanWhole (whole ++ rest) = some (whole, rest) := by
  cases h with
  | zero => rfl
  | digits h hhead =>
    have hscan := h.scan hrest
    obtain ⟨c, t, rfl, _⟩ := h.exists_cons
    rw [List.cons_append] at hscan ⊢
    unfold scanWhole
    split
    · next heq =>
      cases heq
      exact absurd rfl hhead
    · exact hscan

theorem FractionText.scan {fraction : List Char} (h : FractionText fraction)
    (hrest : ∀ c t, rest = c :: t → c.isDigit = false ∧ c ≠ '.') :
    scanFraction (fraction ++ rest) = some (fraction, rest) := by
  cases h with
  | none =>
    rw [List.nil_append]
    unfold scanFraction
    split
    · next t => exact absurd rfl (hrest _ t rfl).2
    · rfl
  | digits h =>
    rw [List.cons_append, scanFraction, h.scan fun c t hc => (hrest c t hc).1]
    rfl

theorem ExponentText.scan {exponent : List Char} (h : ExponentText exponent)
    (hrest : AfterNumber rest) :
    scanExponent (exponent ++ rest) = some (exponent, rest) := by
  cases h with
  | none =>
    cases rest with
    | nil => rfl
    | cons c t =>
      obtain ⟨_, _, he, hE⟩ := hrest c t rfl
      have hnone : ¬(c = 'e' ∨ c = 'E') := by simp [he, hE]
      exact if_neg hnone
  | @digits mark sign ds hmark hsign h =>
    have hscan := h.scan fun c t hc => (hrest c t hc).1
    rcases hsign with rfl | rfl | rfl
    · obtain ⟨c, t, rfl, hc⟩ := h.exists_cons
      have hsign : ∀ d, d.isDigit = false → ∀ rest', c :: t ++ rest ≠ d :: rest' := by
        rintro d hd rest' heq
        cases heq
        rw [hd] at hc
        cases hc
      rw [List.cons_append, List.nil_append, scanExponent, if_pos hmark, hscan]
      · rfl
      · exact hsign '+' rfl
      · exact hsign '-' rfl
    · simp only [List.cons_append, List.nil_append, scanExponent, if_pos hmark, hscan,
        Option.map_some]
    · simp only [List.cons_append, List.nil_append, scanExponent, if_pos hmark, hscan,
        Option.map_some]

end

/-- A literal starts with a minus or a digit. -/
theorem NumberText.exists_head {cs : List Char} (h : NumberText cs) :
    ∃ c t, cs = c :: t ∧ (c = '-' ∨ c.isDigit = true) := by
  obtain ⟨hsign, hwhole, _, _⟩ := h
  obtain ⟨c, t, rfl, hc⟩ := hwhole.exists_head
  cases hsign with
  | plus => exact ⟨c, _, rfl, .inr hc⟩
  | minus => exact ⟨'-', _, rfl, .inl rfl⟩

theorem ExponentText.not_on {exponent rest : List Char} (h : ExponentText exponent)
    (hrest : AfterNumber rest) :
    ∀ c t, exponent ++ rest = c :: t → c.isDigit = false ∧ c ≠ '.' := by
  intro c t hc
  cases h with
  | none => exact ⟨(hrest c t hc).1, (hrest c t hc).2.1⟩
  | digits hmark _ _ =>
    cases hc
    rcases hmark with rfl | rfl
    · decide
    · decide

theorem FractionText.not_on {fraction exponent rest : List Char} (h : FractionText fraction)
    (hexponent : ExponentText exponent) (hrest : AfterNumber rest) :
    ∀ c t, fraction ++ (exponent ++ rest) = c :: t → c.isDigit = false := by
  intro c t hc
  cases h with
  | none => exact (hexponent.not_on hrest c t hc).1
  | digits _ =>
    cases hc
    decide

theorem scanNumber_spelled {cs rest : List Char} (h : NumberText cs) (hrest : AfterNumber rest) :
    scanNumber (cs ++ rest) = some (cs, rest) := by
  obtain ⟨hsign, hwhole, hfraction, hexponent⟩ := h
  simp only [List.append_assoc, scanNumber, hsign.scan hwhole,
    hwhole.scan (hfraction.not_on hexponent hrest), hfraction.scan (hexponent.not_on hrest),
    hexponent.scan hrest, Option.bind_eq_bind, Option.bind_some, Option.pure_def]

/-! What is read as a part was spelled as one. -/

theorem signText_of_scan {cs sign rest : List Char} (h : scanSign cs = (sign, rest)) :
    SignText sign ∧ cs = sign ++ rest := by
  unfold scanSign at h
  split at h
  · cases h
    exact ⟨.minus, rfl⟩
  · cases h
    exact ⟨.plus, rfl⟩

theorem wholeText_of_scan {cs whole rest : List Char} (h : scanWhole cs = some (whole, rest)) :
    WholeText whole ∧ cs = whole ++ rest := by
  unfold scanWhole at h
  split at h
  · cases h
    exact ⟨.zero, rfl⟩
  · next hzero =>
    obtain ⟨hds, rfl⟩ := scanDigits_eq_some h
    refine ⟨.digits hds ?_, rfl⟩
    obtain ⟨c, t, rfl, _⟩ := hds.exists_cons
    rintro ⟨⟩
    exact hzero _ rfl

theorem fractionText_of_scan {cs fraction rest : List Char}
    (h : scanFraction cs = some (fraction, rest)) :
    FractionText fraction ∧ cs = fraction ++ rest := by
  unfold scanFraction at h
  split at h
  · obtain ⟨⟨ds, rest'⟩, hscan, heq⟩ := Option.map_eq_some_iff.mp h
    cases heq
    obtain ⟨hds, rfl⟩ := scanDigits_eq_some hscan
    exact ⟨.digits hds, rfl⟩
  · cases h
    exact ⟨.none, rfl⟩

theorem exponentText_of_scan {cs exponent rest : List Char}
    (h : scanExponent cs = some (exponent, rest)) :
    ExponentText exponent ∧ cs = exponent ++ rest := by
  unfold scanExponent at h
  split at h
  · split_ifs at h with hmark
    · split at h
      all_goals
        obtain ⟨⟨ds, rest'⟩, hscan, heq⟩ := Option.map_eq_some_iff.mp h
        cases heq
        obtain ⟨hds, rfl⟩ := scanDigits_eq_some hscan
      · exact ⟨.digits hmark (.inr (.inl rfl)) hds, rfl⟩
      · exact ⟨.digits hmark (.inr (.inr rfl)) hds, rfl⟩
      · exact ⟨.digits hmark (.inl rfl) hds, rfl⟩
    · cases h
      exact ⟨.none, rfl⟩
  · cases h
    exact ⟨.none, rfl⟩

theorem exists_numberText {cs ds rest : List Char} (h : scanNumber cs = some (ds, rest)) :
    NumberText ds ∧ cs = ds ++ rest := by
  rcases hscan₀ : scanSign cs with ⟨sign, rest₀⟩
  simp only [scanNumber, hscan₀] at h
  obtain ⟨⟨whole, rest₁⟩, hscan₁, h⟩ := Option.bind_eq_some_iff.mp h
  obtain ⟨⟨fraction, rest₂⟩, hscan₂, h⟩ := Option.bind_eq_some_iff.mp h
  obtain ⟨⟨exponent, rest₃⟩, hscan₃, h⟩ := Option.bind_eq_some_iff.mp h
  cases h
  obtain ⟨hsign, rfl⟩ := signText_of_scan hscan₀
  obtain ⟨hwhole, rfl⟩ := wholeText_of_scan hscan₁
  obtain ⟨hfraction, rfl⟩ := fractionText_of_scan hscan₂
  obtain ⟨hexponent, rfl⟩ := exponentText_of_scan hscan₃
  refine ⟨.parts hsign hwhole hfraction hexponent, ?_⟩
  simp only [List.append_assoc]

/-- What denotes a number is a literal. -/
theorem numberText_of_numberValue? {t : String} {q : ℚ} (h : numberValue? t = some q) :
    NumberText t.toList := by
  rcases hscan₀ : scanSign t.toList with ⟨sign, rest₀⟩
  simp only [numberValue?, hscan₀] at h
  obtain ⟨⟨whole, rest₁⟩, hscan₁, h⟩ := Option.bind_eq_some_iff.mp h
  obtain ⟨⟨fraction, rest₂⟩, hscan₂, h⟩ := Option.bind_eq_some_iff.mp h
  obtain ⟨⟨exponent, rest₃⟩, hscan₃, h⟩ := Option.bind_eq_some_iff.mp h
  have hscan : scanNumber t.toList = some (sign ++ whole ++ fraction ++ exponent, rest₃) := by
    simp only [scanNumber, hscan₀, hscan₁, hscan₂, hscan₃, Option.bind_eq_bind, Option.bind_some,
      Option.pure_def]
  obtain ⟨htext, hcs⟩ := exists_numberText hscan
  split at h
  · next hempty =>
    obtain rfl : rest₃ = [] := List.isEmpty_iff.mp hempty
    rw [List.append_nil] at hcs
    rwa [hcs]
  · cases h

end Json
end Contracts
