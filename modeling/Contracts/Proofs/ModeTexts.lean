import Contracts.FailureMode
import Mathlib.Data.List.Forall2
import Mathlib.Data.List.TakeWhile

/-!
# Contracts.Proofs.ModeTexts

The texts that name a failure mode.

* `Text.whiteSpace`     — white space, character by character; what is blank is just that.
* `Text.SameLetter`     — the same character, up to the case of the 26 letters.
* `trim_append`         — white space around a word is trimmed off, and nothing of the word.
* `FailureMode.IsText`  — the name of a mode in any case, with white space around it.
* `mode_texts`          — these texts are read, each as its mode, and all others are refused as they
  are.
-/

namespace Contracts

open List (Forall₂)

namespace Text

/-! ## White space -/

/-- The characters with the Unicode property `White_Space`. -/
def whiteSpace : List Char :=
  ['\t', '\n', '\x0b', '\x0c', '\r', ' ', '\u0085', '\u00a0', '\u1680', '\u2000', '\u2001',
    '\u2002', '\u2003', '\u2004', '\u2005', '\u2006', '\u2007', '\u2008', '\u2009', '\u200a',
    '\u2028', '\u2029', '\u202f', '\u205f', '\u3000']

theorem isBlank_iff (c : Char) : isBlank c = true ↔ c ∈ whiteSpace := by
  have hmem : c ∈ whiteSpace ↔ c.toNat ∈ whiteSpace.map Char.toNat :=
    (List.mem_map_of_injective fun _ _ => Char.toNat_inj.mp).symm
  have htable : whiteSpace.map Char.toNat = [0x09, 0x0A, 0x0B, 0x0C, 0x0D, 0x20, 0x85, 0xA0, 0x1680,
      0x2000, 0x2001, 0x2002, 0x2003, 0x2004, 0x2005, 0x2006, 0x2007, 0x2008, 0x2009, 0x200A,
      0x2028, 0x2029, 0x202F, 0x205F, 0x3000] := by decide
  rw [hmem, htable]
  simp only [isBlank, Bool.or_eq_true, Bool.and_eq_true, decide_eq_true_eq, beq_iff_eq,
    List.mem_cons, List.not_mem_nil, or_false]
  omega

theorem forall_isBlank {cs : List Char} (h : ∀ c ∈ cs, c ∈ whiteSpace) :
    ∀ c ∈ cs, isBlank c = true :=
  fun c hc => (isBlank_iff c).mpr (h c hc)

/-- What is trimmed off is white space. -/
theorem exists_trim (cs : List Char) : ∃ before after, cs = before ++ trim cs ++ after ∧
    (∀ c ∈ before, c ∈ whiteSpace) ∧ ∀ c ∈ after, c ∈ whiteSpace := by
  generalize hrest : cs.dropWhile isBlank = rest
  have hfront : cs = cs.takeWhile isBlank ++ rest := by
    rw [← hrest, List.takeWhile_append_dropWhile]
  have hback : rest = trim cs ++ (rest.reverse.takeWhile isBlank).reverse := by
    rw [trim, hrest, ← List.reverse_append, List.takeWhile_append_dropWhile, List.reverse_reverse]
  refine ⟨cs.takeWhile isBlank, (rest.reverse.takeWhile isBlank).reverse, ?_, ?_, ?_⟩
  · rw [List.append_assoc, ← hback, ← hfront]
  · exact fun c hc => (isBlank_iff c).mp (List.mem_takeWhile_imp hc)
  · exact fun c hc => (isBlank_iff c).mp (List.mem_takeWhile_imp (List.mem_reverse.mp hc))

theorem dropWhile_of_not_blank {cs : List Char} (h : ∀ c ∈ cs, isBlank c = false) :
    cs.dropWhile isBlank = cs := by
  cases cs with
  | nil => rfl
  | cons c rest => rw [List.dropWhile_cons_of_neg (by simp [h c])]

theorem trim_append {before word after : List Char} (hbefore : ∀ c ∈ before, c ∈ whiteSpace)
    (hafter : ∀ c ∈ after, c ∈ whiteSpace) (hword : ∀ c ∈ word, isBlank c = false) :
    trim (before ++ word ++ after) = word := by
  have hfront : (before ++ word ++ after).dropWhile isBlank =
      (word ++ after).dropWhile isBlank := by
    rw [List.append_assoc, List.dropWhile_append_of_pos (forall_isBlank hbefore)]
  have hback : (word ++ after).reverse.dropWhile isBlank = word.reverse := by
    rw [List.reverse_append, List.dropWhile_append_of_pos
      (forall_isBlank fun c hc => hafter c (List.mem_reverse.mp hc))]
    exact dropWhile_of_not_blank fun c hc => hword c (List.mem_reverse.mp hc)
  rw [trim, hfront]
  cases word with
  | nil =>
    rw [List.nil_append, List.dropWhile_eq_nil_iff.mpr (forall_isBlank hafter)]
    rfl
  | cons c rest =>
    rw [List.cons_append, List.dropWhile_cons_of_neg (by simp [hword c]), ← List.cons_append, hback,
      List.reverse_reverse]

/-! ## Letters -/

/-- The letters with an upper and a lower case, as pairs of these. -/
def letters : List (Char × Char) :=
  "ABCDEFGHIJKLMNOPQRSTUVWXYZ".toList.zip "abcdefghijklmnopqrstuvwxyz".toList

/-- The same character, or the two cases of one letter. -/
def SameLetter (c d : Char) : Prop := c = d ∨ (c, d) ∈ letters ∨ (d, c) ∈ letters

instance (c d : Char) : Decidable (SameLetter c d) :=
  inferInstanceAs (Decidable (c = d ∨ (c, d) ∈ letters ∨ (d, c) ∈ letters))

theorem toLower_of_mem_letters : ∀ p ∈ letters, p.1.toLower = p.2 := by decide

/-- A character that has a lower case is the upper case of a letter. -/
theorem mem_letters_of_toLower_ne {c : Char} (h : c.toLower ≠ c) : (c, c.toLower) ∈ letters := by
  have hall : ∀ i < 26, (Char.ofNat (65 + i), (Char.ofNat (65 + i)).toLower) ∈ letters := by decide
  have hupper : 65 ≤ c.toNat ∧ c.toNat ≤ 90 := by
    by_contra hnot
    refine h (dif_neg fun hc => hnot ?_)
    exact ⟨UInt32.le_iff_toNat_le.mp hc.1, UInt32.le_iff_toNat_le.mp hc.2⟩
  have hc : Char.ofNat (65 + (c.toNat - 65)) = c := by
    rw [Nat.add_sub_cancel' hupper.1, Char.ofNat_toNat]
  have hmem := hall (c.toNat - 65) (by omega)
  rwa [hc] at hmem

/-- To compare with what is in lower case is to compare in lower case. -/
theorem toLower_eq_iff {c d : Char} (hd : d.toLower = d) : c.toLower = d ↔ SameLetter c d := by
  constructor
  · rintro rfl
    by_cases hc : c.toLower = c
    · exact .inl hc.symm
    · exact .inr (.inl (mem_letters_of_toLower_ne hc))
  · rintro (rfl | hcd | hdc)
    · exact hd
    · exact toLower_of_mem_letters _ hcd
    · -- the lower case of `d` is both `c` and `d` itself
      have hc : d = c := hd.symm.trans (toLower_of_mem_letters _ hdc)
      rw [← hc, hd]

theorem map_toLower_eq_iff {word name : List Char} (hname : ∀ d ∈ name, d.toLower = d) :
    word.map Char.toLower = name ↔ Forall₂ SameLetter word name := by
  induction name generalizing word with
  | nil => rw [List.map_eq_nil_iff, List.forall₂_nil_right_iff]
  | cons d name ih =>
    have hd : d.toLower = d := hname d List.mem_cons_self
    cases word with
    | nil => simp
    | cons c word =>
      rw [List.map_cons, List.cons.injEq, List.forall₂_cons, toLower_eq_iff hd,
        ih fun e he => hname e (List.mem_cons_of_mem d he)]

theorem not_isBlank_of_mem_letters :
    ∀ p ∈ letters, isBlank p.1 = false ∧ isBlank p.2 = false := by decide

theorem not_isBlank_of_sameLetter {c d : Char} (h : SameLetter c d) (hd : isBlank d = false) :
    isBlank c = false := by
  rcases h with rfl | hcd | hdc
  · exact hd
  · exact (not_isBlank_of_mem_letters _ hcd).1
  · exact (not_isBlank_of_mem_letters _ hdc).2

theorem not_isBlank_of_forall₂ {word name : List Char} (h : Forall₂ SameLetter word name)
    (hname : ∀ d ∈ name, isBlank d = false) : ∀ c ∈ word, isBlank c = false := by
  induction h with
  | nil => simp
  | @cons c d word name hcd _ ih =>
    have hc := not_isBlank_of_sameLetter hcd (hname d List.mem_cons_self)
    exact List.forall_mem_cons.mpr ⟨hc, ih fun e he => hname e (List.mem_cons_of_mem d he)⟩

/-- The word with each of its letters in the case that is asked for. -/
def recased (upper : Nat → Bool) (word : List Char) : List Char :=
  word.mapIdx fun i c => if upper i then c.toUpper else c.toLower

theorem map_toLower_recased {word : List Char}
    (hword : ∀ c ∈ word, c.toLower = c ∧ c.toUpper.toLower = c) (upper : Nat → Bool) :
    (recased upper word).map Char.toLower = word := by
  refine List.ext_getElem (by rw [List.length_map, recased, List.length_mapIdx]) fun i _ hi => ?_
  obtain ⟨hlower, hupper⟩ := hword word[i] (List.getElem_mem hi)
  simp only [recased, List.getElem_map, List.getElem_mapIdx]
  split
  · exact hupper
  · rw [hlower, hlower]

end Text

open Text

namespace FailureMode

variable {m : FailureMode} {s : String}

/-! ## Names of modes -/

theorem ofName?_eq_some_iff : ofName? s = some m ↔ s = m.name := by
  constructor
  · intro h
    unfold ofName? at h
    split at h
    · cases h
      assumption
    · split at h
      · cases h
        assumption
      · cases h
  · rintro rfl
    exact ofName?_name m

/-- The names of modes are words in lower case. -/
theorem of_mem_name (m : FailureMode) :
    ∀ c ∈ m.name.toList, c.toLower = c ∧ c.toUpper.toLower = c ∧ isBlank c = false := by
  have hall : m.name.toList.all
      (fun c => c.toLower == c && c.toUpper.toLower == c && !isBlank c) = true := by
    cases m <;> rfl
  simpa [and_assoc] using hall

/-- A text for a mode: its name in any case, with white space around it. -/
def IsText (m : FailureMode) (s : String) : Prop :=
  ∃ before word after, s.toList = before ++ word ++ after ∧ (∀ c ∈ before, c ∈ whiteSpace) ∧
    (∀ c ∈ after, c ∈ whiteSpace) ∧ Forall₂ SameLetter word m.name.toList

theorem parse_eq_ok_iff_trim :
    parse s = .ok m ↔ (trim s.toList).map Char.toLower = m.name.toList := by
  have hname : ofName? (String.ofList ((trim s.toList).map Char.toLower)) = some m ↔
      (trim s.toList).map Char.toLower = m.name.toList := by
    rw [ofName?_eq_some_iff, ← String.toList_inj, String.toList_ofList]
  rw [← hname, parse]
  cases ofName? (String.ofList ((trim s.toList).map Char.toLower)) with
  | none => simp
  | some m' => simp

theorem parse_eq_ok_iff : parse s = .ok m ↔ m.IsText s := by
  have hname := m.of_mem_name
  rw [parse_eq_ok_iff_trim, map_toLower_eq_iff fun c hc => (hname c hc).1]
  constructor
  · intro hword
    obtain ⟨before, after, hs, hbefore, hafter⟩ := exists_trim s.toList
    exact ⟨before, _, after, hs, hbefore, hafter, hword⟩
  · rintro ⟨before, word, after, hs, hbefore, hafter, hword⟩
    rwa [hs, trim_append hbefore hafter
      (not_isBlank_of_forall₂ hword fun c hc => (hname c hc).2.2)]

/-- A text that is refused comes back as it was given. -/
theorem parse_eq_error_iff {e : UnknownFailureMode} :
    parse s = .error e ↔ e = ⟨s⟩ ∧ ∀ m : FailureMode, ¬ m.IsText s := by
  have hnone : (∀ m : FailureMode, ¬ m.IsText s) ↔ parse s = .error ⟨s⟩ := by
    simp only [← parse_eq_ok_iff]
    rw [parse]
    cases ofName? (String.ofList ((trim s.toList).map Char.toLower)) <;> simp
  rw [hnone]
  constructor
  · intro h
    have he : e = ⟨s⟩ := by
      rw [parse] at h
      split at h
      · cases h
      · cases h
        rfl
    exact ⟨he, he ▸ h⟩
  · rintro ⟨rfl, h⟩
    exact h

theorem isText_padded (m : FailureMode) (upper : Nat → Bool)
    (before after : List { c : Char // c ∈ whiteSpace }) :
    m.IsText (String.ofList
      (before.map (·.val) ++ recased upper m.name.toList ++ after.map (·.val))) := by
  have hname := m.of_mem_name
  have hblank : ∀ cs : List { c : Char // c ∈ whiteSpace }, ∀ c ∈ cs.map (·.val), c ∈ whiteSpace :=
    fun cs => List.forall_mem_map.mpr fun c _ => c.property
  refine ⟨_, _, _, String.toList_ofList, hblank before, hblank after, ?_⟩
  refine (map_toLower_eq_iff fun c hc => (hname c hc).1).mp ?_
  exact map_toLower_recased (fun c hc => ⟨(hname c hc).1, (hname c hc).2.1⟩) upper

end FailureMode

/-- A text is read as a mode if and only if it is the name of the mode in any case, with white space
around it, and else it is refused with the text as it was given. So the name of a mode is read as
that mode, however it is padded and whatever the case of its letters, and no text is read as both
modes. -/
theorem mode_texts (s : String) :
    (∀ m, FailureMode.parse s = .ok m ↔ m.IsText s) ∧
    (∀ e, FailureMode.parse s = .error e ↔ e = ⟨s⟩ ∧ ∀ m : FailureMode, ¬ m.IsText s) ∧
    ¬ (FailureMode.log.IsText s ∧ FailureMode.throw.IsText s) ∧
    ∀ (m : FailureMode) (upper : Nat → Bool) (before after : List { c : Char // c ∈ whiteSpace }),
      FailureMode.parse (String.ofList
        (before.map (·.val) ++ recased upper m.name.toList ++ after.map (·.val))) = .ok m := by
  refine ⟨fun m => FailureMode.parse_eq_ok_iff, fun e => FailureMode.parse_eq_error_iff, ?_, ?_⟩
  · rintro ⟨hlog, hthrow⟩
    have hlog := FailureMode.parse_eq_ok_iff.mpr hlog
    rw [FailureMode.parse_eq_ok_iff.mpr hthrow] at hlog
    cases hlog
  · intro m upper before after
    exact FailureMode.parse_eq_ok_iff.mpr (m.isText_padded upper before after)

/-- White space is more than blanks, but a wide letter is no other case of a letter. -/
example : FailureMode.parse "\u2003ThRoW\u0085" = .ok .throw ∧
    FailureMode.parse "\uff2cog" = .error ⟨"\uff2cog"⟩ := by decide

end Contracts
