import Contracts.CommandLine.Reader

/-!
# Contracts.Proofs.Arguments

The argument lists of `run`.

* `RunPart`, `RunPart.Spelled` — what can be said of a run, and the arguments that say it.
* `Says`  — an argument list as a sequence of such parts, in any order.
* `Asks`  — a list that names one scenario, and gives each option at most once.
* `parseRun_eq_foldlM`, `exists_parts` — the reader takes the parts one after the other, and takes
  nothing else.
* `parse?_run_iff`, `parse?_of_unknown_mode` — which lists are read as which run, and that a mode
  which is none makes a list that is not read.
* `ArgumentReader.ReadsRuns` — what is relied on where a reader is a parameter.
* `standardReader_readsRuns` — the reader of the program can be relied on.
-/

namespace Contracts.CommandLine

/-- What one part of the arguments says. -/
inductive RunPart where
  | name (s : String)
  | mode (text : String)
  | trace
  deriving DecidableEq

namespace RunPart

def name? : RunPart → Option String
  | .name s => some s
  | _ => none

def text? : RunPart → Option String
  | .mode text => some text
  | _ => none

end RunPart

/-- The argument does not look like an option: it does not begin with a dash, or is no more than
one. -/
def IsPlain (arg : String) : Prop := arg = "-" ∨ arg.toList.head? ≠ some '-'

/-- The arguments that say a part. -/
inductive RunPart.Spelled : RunPart → List String → Prop where
  | name {s : String} (hs : IsPlain s) : Spelled (.name s) [s]
  | trace : Spelled .trace ["--trace"]
  | longNext {text : String} (ht : IsPlain text) : Spelled (.mode text) ["--failure-mode", text]
  | longAttached (text : String) : Spelled (.mode text) ["--failure-mode=" ++ text]
  | shortNext {text : String} (ht : IsPlain text) : Spelled (.mode text) ["-f", text]
  | shortAttached {c : Char} (cs : List Char) (hc : c ≠ '=') :
      Spelled (.mode (String.ofList (c :: cs))) ["-f" ++ String.ofList (c :: cs)]
  | shortEquals (text : String) : Spelled (.mode text) ["-f=" ++ text]

/-- The arguments say these parts, in this order. After a separator there are only names. -/
inductive Says : List String → List RunPart → Prop where
  | nil : Says [] []
  | separator (names : List String) : Says ("--" :: names) (names.map .name)
  | part {p : RunPart} {args rest : List String} {ps : List RunPart} (hp : p.Spelled args)
      (h : Says rest ps) : Says (args ++ rest) (p :: ps)

/-- The arguments name the scenario, give the mode by the text if there is one, and ask for a trace
or do not. -/
def Asks (args : List String) (name : String) (text : Option String) (trace : Bool) : Prop :=
  ∃ ps, Says args ps ∧ ps.filterMap RunPart.name? = [name] ∧
    ps.filterMap RunPart.text? = text.toList ∧ ps.count .trace = trace.toNat

/-! ## Shapes -/

namespace Shape

theorem of_plain {arg : String} (h : IsPlain arg) : of arg = .plain := by
  rcases h with rfl | h
  · rfl
  · unfold of
    split <;> simp_all

theorem of_longAttached (text : String) :
    of ("--failure-mode=" ++ text) = .long "failure-mode".toList (some text.toList) := by
  simp [of, splitAtEquals]

theorem of_shortAttached (text : String) : of ("-f" ++ text) = .short 'f' text.toList := by
  simp [of]

theorem of_shortEquals (text : String) :
    of ("-f=" ++ text) = .short 'f' ('=' :: text.toList) := by
  simp [of]

variable {arg : String}

theorem eq_of_separator (h : of arg = .separator) : arg = "--" := by
  unfold of at h
  split at h <;> try cases h
  next heq => exact String.toList_inj.mp heq

theorem isPlain_of_plain (h : of arg = .plain) : IsPlain arg := by
  unfold of at h
  split at h <;> try cases h
  next hsep hlong hshort =>
    cases hcs : arg.toList with
    | nil => exact .inr (by simp [hcs])
    | cons c rest =>
      by_cases hc : c = '-'
      · subst hc
        cases rest with
        | nil => exact .inl (String.toList_inj.mp hcs)
        | cons c rest => exact absurd hcs (hshort c rest)
      · exact .inr (by simp [hcs, hc])

theorem eq_of_short {c : Char} {attached : List Char} (h : of arg = .short c attached) :
    arg = String.ofList ('-' :: c :: attached) := by
  unfold of at h
  split at h <;> try cases h
  next heq => rw [← heq, String.ofList_toList]

theorem eq_of_splitAtEquals {cs name : List Char} {value : Option (List Char)}
    (h : splitAtEquals cs = (name, value)) :
    cs = name ++ (value.map ('=' :: ·)).getD [] := by
  unfold splitAtEquals at h
  split at h
  · next c value' heq =>
    obtain ⟨rfl, rfl⟩ := Prod.mk.inj h
    have hc : c = '=' := by
      have hhead := List.head?_dropWhile_not (· != '=') cs
      simpa [heq] using hhead
    calc cs = cs.takeWhile (· != '=') ++ cs.dropWhile (· != '=') :=
          List.takeWhile_append_dropWhile.symm
      _ = _ := by rw [heq, hc]; rfl
  · obtain ⟨rfl, rfl⟩ := Prod.mk.inj h
    exact (List.append_nil cs).symm

theorem eq_of_long {name : List Char} {value : Option (List Char)}
    (h : of arg = .long name value) :
    arg = "--" ++ String.ofList name ++ (value.map ("=" ++ String.ofList ·)).getD "" := by
  have hsplit : ∃ rest, arg.toList = '-' :: '-' :: rest ∧ splitAtEquals rest = (name, value) := by
    unfold of at h
    split at h <;> try cases h
    next rest _ heq => exact ⟨rest, heq, rfl⟩
  obtain ⟨rest, heq, hsplit⟩ := hsplit
  rw [← String.toList_inj, heq, eq_of_splitAtEquals hsplit]
  cases value <;> simp

end Shape

/-! ## Parts, one after the other -/

namespace RunDraft

/-- What one part adds to what was said before. -/
def add (ofText : ModeReader) (d : RunDraft) : RunPart → Option RunDraft
  | .name s => d.addName s
  | .mode text => d.addMode ofText text
  | .trace => d.addTrace

variable {ofText : ModeReader}

/-- A sequence of parts is taken just if it names one scenario at most, and gives a mode and asks
for a trace once at most. The draft then holds what was said. -/
theorem foldlM_add_eq_some {ps : List RunPart} {d d' : RunDraft} :
    ps.foldlM (add ofText) d = some d' ↔
      d.scenario.toList ++ ps.filterMap RunPart.name? = d'.scenario.toList ∧
      (d.mode.map .ok).toList ++ (ps.filterMap RunPart.text?).map ofText =
        (d'.mode.map .ok).toList ∧
      d.trace.toNat + ps.count .trace = d'.trace.toNat := by
  induction ps generalizing d with
  | nil =>
    obtain ⟨scenario, mode, trace⟩ := d
    obtain ⟨scenario', mode', trace'⟩ := d'
    cases scenario <;> cases scenario' <;> cases mode <;> cases mode' <;> cases trace <;>
      cases trace' <;> simp
  | cons p ps ih =>
    rw [List.foldlM_cons, Option.bind_eq_bind, Option.bind_eq_some_iff]
    obtain ⟨scenario, mode, trace⟩ := d
    -- a part is refused just if there is one of its kind, and then there would be two
    cases p with
    | name s =>
      cases scenario with
      | none => simp [add, addName, ih, List.filterMap_cons, RunPart.name?, RunPart.text?]
      | some s' => cases d'.scenario <;> simp [add, addName, RunPart.name?]
    | mode text =>
      cases mode with
      | none =>
        cases hparse : ofText text with
        | ok m =>
          simp [add, addMode, ih, hparse, List.filterMap_cons, RunPart.name?, RunPart.text?]
        | error e => cases d'.mode <;> simp [add, addMode, hparse, RunPart.text?]
      | some m => cases d'.mode <;> simp [add, addMode, RunPart.text?]
    | trace =>
      cases trace with
      | false =>
        simp [add, addTrace, ih, List.filterMap_cons, RunPart.name?, RunPart.text?, Nat.add_comm]
      | true => cases d'.trace <;> simp [add, addTrace]

end RunDraft

section Reading

variable {ofText : ModeReader}

theorem attachedValue_cons {c : Char} (hc : c ≠ '=') (cs : List Char) :
    attachedValue (c :: cs) = some (c :: cs) := by
  unfold attachedValue
  split <;> simp_all

/-- A part of the arguments is taken off their front. -/
theorem parseRun_spelled {p : RunPart} {args : List String} (h : p.Spelled args) (d : RunDraft)
    {n : Nat} (rest : List String) (hn : (args ++ rest).length ≤ n) :
    ∃ n', rest.length ≤ n' ∧
      parseRun ofText d n (args ++ rest) =
        (d.add ofText p).bind fun d => parseRun ofText d n' rest := by
  obtain ⟨n, rfl⟩ : ∃ m, n = m + 1 := by
    cases h <;> exact Nat.exists_eq_add_of_le' (Nat.le_trans (by simp) hn)
  refine ⟨n, ?_, ?_⟩
  · cases h <;> simp at hn <;> omega
  · cases h with
    | name hs => simp only [List.singleton_append, parseRun, Shape.of_plain hs]; rfl
    | trace => rfl
    | longNext ht =>
      simp only [List.cons_append, List.nil_append, parseRun,
        show Shape.of "--failure-mode" = .long "failure-mode".toList none from rfl,
        String.ofList_toList, nextValue?, Shape.of_plain ht]
      rfl
    | longAttached text =>
      simp only [List.singleton_append, parseRun, Shape.of_longAttached, String.ofList_toList]
      rfl
    | shortNext ht =>
      simp only [List.cons_append, List.nil_append, parseRun,
        show Shape.of "-f" = .short 'f' [] from rfl, attachedValue, nextValue?,
        Shape.of_plain ht]
      rfl
    | shortAttached cs hc =>
      simp only [List.singleton_append, parseRun, Shape.of_shortAttached, String.toList_ofList,
        attachedValue_cons hc]
      rfl
    | shortEquals text =>
      simp only [List.singleton_append, parseRun, Shape.of_shortEquals, attachedValue,
        String.ofList_toList]
      rfl

/-- The reader takes what the arguments say part by part. -/
theorem parseRun_eq_foldlM {args : List String} {ps : List RunPart} (h : Says args ps)
    (d : RunDraft) {n : Nat} (hn : args.length ≤ n) :
    parseRun ofText d n args = (ps.foldlM (RunDraft.add ofText) d).bind RunDraft.request? := by
  induction h generalizing d n with
  | nil => rw [parseRun]; rfl
  | separator names =>
    obtain ⟨n, rfl⟩ := Nat.exists_eq_add_of_le' (Nat.le_trans (by simp) hn : 1 ≤ n)
    rw [List.foldlM_map]
    rfl
  | part hp _ ih =>
    obtain ⟨n', hn', hparse⟩ := parseRun_spelled hp d _ hn
    rw [hparse, List.foldlM_cons, Option.bind_eq_bind, Option.bind_assoc]
    exact congrArg _ (funext fun d' => ih d' hn')

theorem exists_plain_of_nextValue? {args rest : List String} {v : String}
    (h : nextValue? args = some (v, rest)) : IsPlain v ∧ args = v :: rest := by
  cases args with
  | nil => cases h
  | cons arg args =>
    simp only [nextValue?] at h
    split at h
    · next hshape =>
      cases h
      exact ⟨Shape.isPlain_of_plain hshape, rfl⟩
    · cases h

/-- The reader of a run goes on from a separator with names, and from any other argument behind a
part. -/
theorem exists_spelled {n : Nat} {arg : String} {rest : List String} {d : RunDraft} {name : String}
    {mode : Option FailureMode} {trace : Bool}
    (h : parseRun ofText d (n + 1) (arg :: rest) = some (.command (.run name mode trace))) :
    arg = "--" ∨ ∃ (p : RunPart) (spelling rest' : List String) (d' : RunDraft),
      p.Spelled spelling ∧ arg :: rest = spelling ++ rest' ∧
        parseRun ofText d' n rest' = some (.command (.run name mode trace)) := by
  cases hshape : Shape.of arg with
  | separator => exact .inl (Shape.eq_of_separator hshape)
  | plain =>
    simp only [parseRun, hshape, Option.bind_eq_bind, Option.bind_eq_some_iff] at h
    obtain ⟨d', -, hrest⟩ := h
    exact .inr ⟨.name arg, [arg], rest, d', .name (Shape.isPlain_of_plain hshape), rfl, hrest⟩
  | long optionName value =>
    have harg := Shape.eq_of_long hshape
    simp only [parseRun, hshape] at h
    split at h
    case h_1 | h_5 => cases h
    case h_2 hname =>
      obtain ⟨d', -, hrest⟩ := Option.bind_eq_some_iff.mp h
      rw [harg, hname]
      exact .inr ⟨.trace, ["--trace"], rest, d', .trace, rfl, hrest⟩
    case h_3 v hname =>
      obtain ⟨d', -, hrest⟩ := Option.bind_eq_some_iff.mp h
      rw [harg, hname]
      exact .inr ⟨.mode (String.ofList v), _, rest, d', .longAttached _, rfl, hrest⟩
    case h_4 hname =>
      obtain ⟨⟨v, rest'⟩, hnext, hmode⟩ := Option.bind_eq_some_iff.mp h
      obtain ⟨d', -, hrest⟩ := Option.bind_eq_some_iff.mp hmode
      obtain ⟨hv, rfl⟩ := exists_plain_of_nextValue? hnext
      rw [harg, hname]
      exact .inr ⟨.mode v, ["--failure-mode", v], rest', d', .longNext hv, rfl, hrest⟩
  | short c attached =>
    have harg := Shape.eq_of_short hshape
    by_cases hf : c = 'f'
    · subst hf
      simp only [parseRun, hshape] at h
      cases attached with
      | nil =>
        obtain ⟨⟨v, rest'⟩, hnext, hmode⟩ := Option.bind_eq_some_iff.mp h
        obtain ⟨d', -, hrest⟩ := Option.bind_eq_some_iff.mp hmode
        obtain ⟨hv, rfl⟩ := exists_plain_of_nextValue? hnext
        rw [harg]
        exact .inr ⟨.mode v, ["-f", v], rest', d', .shortNext hv, rfl, hrest⟩
      | cons c cs =>
        by_cases hc : c = '='
        · subst hc
          obtain ⟨d', -, hrest⟩ := Option.bind_eq_some_iff.mp h
          refine .inr ⟨.mode (String.ofList cs), ["-f=" ++ String.ofList cs], rest, d',
            .shortEquals _, ?_, hrest⟩
          rw [harg]
          exact congrArg (· :: rest) (String.toList_inj.mp (by simp))
        · rw [attachedValue_cons hc] at h
          obtain ⟨d', -, hrest⟩ := Option.bind_eq_some_iff.mp h
          refine .inr ⟨.mode (String.ofList (c :: cs)), ["-f" ++ String.ofList (c :: cs)], rest, d',
            .shortAttached cs hc, ?_, hrest⟩
          rw [harg]
          exact congrArg (· :: rest) (String.toList_inj.mp (by simp))
    · simp only [parseRun, hshape] at h
      split at h <;> simp_all

/-- What is read as a run of a scenario is a sequence of parts. -/
theorem exists_parts {n : Nat} {args : List String} {d : RunDraft} {name : String}
    {mode : Option FailureMode} {trace : Bool}
    (h : parseRun ofText d n args = some (.command (.run name mode trace))) :
    ∃ ps, Says args ps := by
  induction n generalizing args d with
  | zero =>
    cases args with
    | nil => exact ⟨[], .nil⟩
    | cons arg rest => cases h
  | succ n ih =>
    cases args with
    | nil => exact ⟨[], .nil⟩
    | cons arg rest =>
      rcases exists_spelled h with rfl | ⟨p, spelling, rest', d', hp, hargs, hrest⟩
      · exact ⟨_, .separator rest⟩
      · obtain ⟨ps, hps⟩ := ih hrest
        exact ⟨p :: ps, hargs ▸ .part hp hps⟩

/-! ## Lists that ask for a run -/

section

variable {args : List String} {name text : String} {mode : Option FailureMode} {trace : Bool}

/-- A list that asks for a run with no mode, or with one that is known, is read as that. -/
theorem Asks.parse?_eq {given : Option String} (h : Asks args name given trace)
    (hmode : given.map ofText = mode.map .ok) :
    Request.parse? ofText ("run" :: args) = some (.command (.run name mode trace)) := by
  obtain ⟨ps, hps, hnames, htexts, htraces⟩ := h
  have hdraft : ps.foldlM (RunDraft.add ofText) {} = some ⟨some name, mode, trace⟩ := by
    refine RunDraft.foldlM_add_eq_some.mpr ⟨hnames, ?_, (Nat.zero_add _).trans htraces⟩
    rw [htexts, ← Option.toList_map, hmode]
    rfl
  rw [show Request.parse? ofText ("run" :: args) = parseRun ofText {} args.length args from rfl,
    parseRun_eq_foldlM hps {} (Nat.le_refl _), hdraft]
  rfl

/-- A mode that is none makes a list that is not read. -/
theorem parse?_of_unknown_mode {e : UnknownFailureMode} (h : Asks args name (some text) trace)
    (hmode : ofText text = .error e) : Request.parse? ofText ("run" :: args) = none := by
  obtain ⟨ps, hps, hnames, htexts, -⟩ := h
  rw [show Request.parse? ofText ("run" :: args) = parseRun ofText {} args.length args from rfl,
    parseRun_eq_foldlM hps {} (Nat.le_refl _)]
  cases hdraft : ps.foldlM (RunDraft.add ofText) {} with
  | none => rfl
  | some d =>
    obtain ⟨-, hmodes, -⟩ := RunDraft.foldlM_add_eq_some.mp hdraft
    rw [htexts] at hmodes
    cases hd : d.mode <;> simp [hd, hmode] at hmodes

theorem exists_run_of_parse?
    (h : Request.parse? ofText args = some (.command (.run name mode trace))) :
    ∃ rest, args = "run" :: rest ∧
      parseRun ofText {} rest.length rest = some (.command (.run name mode trace)) := by
  unfold Request.parse? at h
  split at h
  · cases h
  · next rest =>
    unfold parseList at h
    split at h
    · cases h
    · cases h
    · split at h <;> cases h
  · next rest => exact ⟨rest, rfl, h⟩
  · unfold parseHelp at h
    split at h <;> cases h
  · split at h <;> cases h

/-- A list is read as a run if and only if it asks for it. -/
theorem parse?_run_iff : Request.parse? ofText args = some (.command (.run name mode trace)) ↔
    ∃ rest given, args = "run" :: rest ∧ Asks rest name given trace ∧
      given.map ofText = mode.map .ok := by
  constructor
  · intro h
    obtain ⟨rest, rfl, hparse⟩ := exists_run_of_parse? h
    obtain ⟨ps, hps⟩ := exists_parts hparse
    rw [parseRun_eq_foldlM hps {} (Nat.le_refl _), Option.bind_eq_some_iff] at hparse
    obtain ⟨d, hdraft, hrequest⟩ := hparse
    obtain ⟨hnames, hmodes, htraces⟩ := RunDraft.foldlM_add_eq_some.mp hdraft
    obtain ⟨scenario, hscenario, hrun⟩ := Option.map_eq_some_iff.mp hrequest
    cases hrun
    rw [hscenario] at hnames
    refine ⟨rest, (ps.filterMap RunPart.text?).head?, rfl,
      ⟨ps, hps, hnames, ?_, (Nat.zero_add _).symm.trans htraces⟩, ?_⟩
    · -- a second text would be one mode too many
      revert hmodes
      rcases ps.filterMap RunPart.text? with _ | ⟨text, _ | ⟨text', texts⟩⟩
      · exact fun _ => rfl
      · exact fun _ => rfl
      · cases d.mode <;> simp
    · have hfirst := congrArg List.head? hmodes
      simpa using hfirst
  · rintro ⟨rest, given, rfl, hasks, hmode⟩
    exact hasks.parse?_eq hmode

end

end Reading

/-! ## Readers -/

/-- What a reader of arguments is relied on for. It reads a list as a run if and only if the list
asks for one, with a mode that can be read if it gives one. A mode that cannot be read is a usage
error, and a usage error ends the process with a code of its own and nothing on standard output. -/
structure ArgumentReader.ReadsRuns (R : ArgumentReader) : Prop where
  run_iff : ∀ ofText args name mode trace, R.read ofText args = .ok (.run name mode trace) ↔
    ∃ rest given, args = "run" :: rest ∧ Asks rest name given trace ∧
      given.map ofText = mode.map .ok
  unknown_mode : ∀ ofText args name text trace e, Asks args name (some text) trace →
    ofText text = .error e → ∃ r, R.read ofText ("run" :: args) = .error r ∧ R.isUsageError r
  usage_exit : ∀ r, R.isUsageError r = true → (R.exit r).code = 2 ∧ (R.exit r).stdout = ""

theorem standardReader_readsRuns : standardReader.ReadsRuns where
  run_iff ofText args name mode trace := by
    rw [← parse?_run_iff]
    change readCommand ofText args = _ ↔ _
    rw [readCommand]
    split
    · next hparse => simp [hparse]
    · next hparse => simp [hparse]
    · next hparse => simp [hparse]
  unknown_mode ofText args name text trace e h hmode := by
    refine ⟨.usage, ?_, rfl⟩
    change readCommand ofText ("run" :: args) = _
    rw [readCommand, parse?_of_unknown_mode h hmode]
  usage_exit r hr := by
    cases r with
    | help topic => cases hr
    | usage => exact ⟨rfl, rfl⟩

end Contracts.CommandLine
