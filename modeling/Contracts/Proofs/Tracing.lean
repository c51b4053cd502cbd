import Contracts.Proofs.Sessions
import Contracts.Proofs.Sinks

/-!
# Contracts.Proofs.Tracing

Tracing does not change what contracts do.

`tracing_unobserved`: two sessions that differ only in where contracts trace to give the same
answers, end in states that are the same, and write the same journals but for what each check
traced, under any two hosts whose callbacks agree. A sink that gives up changes no more than the
remark that it did, whatever else the sink does.

A sink has its body run by the check itself, so it must not be one that changes what the program
goes on to read. Harmless bodies may make records, which the other session then lacks; states are
the same up to the names of records. They make no symbols: the number of the next symbol is part of
the state.
-/

namespace Contracts

open List (Forall₂)
open Script Session

/-- Sessions that differ only in where contracts trace to come to the same, under any two hosts
whose callbacks agree and whose traces do at these settings. Scripts are such hosts: their sessions
cannot be told apart by the harmless settings that contracts trace to, nor can sinks that give up
from sinks that return. Harmless sinks make no symbols. -/
theorem tracing_unobserved (depth : Nat) :
    (∀ (B : List Event → List Event → Prop)
      (T : TraceSetting Callback → TraceSetting Callback → Prop)
      (host host' : Host Callback Scope), (retracing B T).SameHosts T host host' →
      ∀ (ρ : Ref ≃. Ref) (s s' : Session), s.Alike B T ρ s' →
      ∀ rs rs', Forall₂ (Step.Retraced T) rs rs' → ∃ ρ', ρ ≤ ρ' ∧
        Forall₂ (SameReport B T ρ') (s.runAll host rs) (s'.runAll host' rs') ∧
        (s.after host rs).Alike B T ρ' (s'.after host' rs')) ∧
    (∀ t, isHarmless t → ∀ d, t.Harmless (hostOf d)) ∧
    (∀ T : TraceSetting Callback → TraceSetting Callback → Prop,
      (∀ t t', T t t' → Interchangeable depth t t') →
      ∀ (ρ : Ref ≃. Ref) (s s' : Session), s.Alike (TracedTwice depth T) T ρ s' →
      ∀ rs rs', Forall₂ (Step.Retraced T) rs rs' → ∃ ρ', ρ ≤ ρ' ∧
        Forall₂ (SameReport (TracedTwice depth T) T ρ') (s.runAll (hostOf depth) rs)
          (s'.runAll (hostOf depth) rs') ∧
        (s.after (hostOf depth) rs).Alike (TracedTwice depth T) T ρ'
          (s'.after (hostOf depth) rs')) ∧
    (∀ (ρ : Ref ≃. Ref) (s s' : Session), s.Alike GaveUp Eq ρ s' → ∀ rs, ∃ ρ', ρ ≤ ρ' ∧
      Forall₂ (fun x y => x.1 = y.1 ∧ SameBut GaveUp (Value.Alike ρ') x.2 y.2)
        (s.runAll (hostOf depth) rs) (s'.runAll (returningHost depth) rs) ∧
      (s.after (hostOf depth) rs).Alike GaveUp Eq ρ' (s'.after (returningHost depth) rs)) := by
  refine ⟨fun B T host host' hh ρ s s' hs rs rs' hrs => sameSession hh hs hrs,
    fun t ht d => harmless_of_isHarmless ht d, ?_, ?_⟩
  · exact fun T hT ρ s s' hs rs rs' hrs => sameSession (sameHosts_harmless hT le_rfl) hs hrs
  · intro ρ s s' hs rs
    have hrs : Forall₂ (Step.Retraced Eq) rs rs :=
      List.forall₂_same.mpr fun r _ => .refl (T := Eq) (fun _ => rfl) r
    obtain ⟨ρ', hρ, hreports, hend⟩ := sameSession (sameHosts_returning depth) hs hrs
    exact ⟨ρ', hρ, hreports.imp fun _ _ h => ⟨h.answer.eq, h.journal⟩, hend⟩

namespace Turnstile

/-- Lets through whoever shows something that counts as true. -/
def admits : Callback := { body := [.give (.arg 0)] }

/-- Opens, and answers one poll later. -/
def pass : Callback :=
  { timing := .eager 1, body := [.give (.literal (.constant (.bool true)))] }

/-- Notes what it is told, and gives up. -/
def clerk : Callback := { body := [.note "seen" (.arg 0), .panic] }

/-- A call that has to wait, and one that is refused. -/
def requests (t : TraceSetting Callback) : List Session.Step :=
  [.contract "ticket" (.record none [.requires admits, .trace t]),
    .wrap "pass" "ticket" .function ⟨none, "pass"⟩ pass,
    .call "pass" (.constant .undefined) [.constant (.bool true)] (some "visitor"),
    .poll "visitor",
    .call "pass" (.constant .undefined) [.constant (.bool false)] none]

/-- No clerk, and one. -/
def Staffed (t t' : TraceSetting Callback) : Prop := t = .disabled ∧ t' = .sink clerk

/-- How many entries each request leaves. -/
def entries (reports : List (Answer × List Event)) : List Nat := reports.map fun r => r.2.length

/-- The clerk's notes and faints are all that shows that there is one, and the faints all that
shows that one does faint. -/
theorem unobserved_clerk :
    Forall₂ (Step.Retraced Staffed) (requests .disabled) (requests (.sink clerk)) ∧
    (∃ ρ, Forall₂ (SameReport (TracedTwice 1 Staffed) Staffed ρ)
      (start.runAll (hostOf 1) (requests .disabled))
      (start.runAll (hostOf 1) (requests (.sink clerk)))) ∧
    (∃ ρ, Forall₂ (fun x y => x.1 = y.1 ∧ SameBut GaveUp (Value.Alike ρ) x.2 y.2)
      (start.runAll (hostOf 1) (requests (.sink clerk)))
      (start.runAll (returningHost 1) (requests (.sink clerk)))) ∧
    entries (start.runAll (hostOf 1) (requests .disabled)) = [0, 0, 0, 1, 2] ∧
    entries (start.runAll (hostOf 1) (requests (.sink clerk))) = [0, 0, 3, 1, 5] ∧
    entries (start.runAll (returningHost 1) (requests (.sink clerk))) = [0, 0, 2, 1, 4] := by
  obtain ⟨-, hharmless, hsettings, hpanics⟩ := tracing_unobserved 1
  have hstaffed : ∀ t t', Staffed t t' → Interchangeable 1 t t' := by
    rintro _ _ ⟨rfl, rfl⟩
    exact .inr fun d _ => ⟨hharmless _ rfl d, hharmless _ rfl d⟩
  have hrequests : Forall₂ (Step.Retraced Staffed) (requests .disabled) (requests (.sink clerk)) :=
    .cons (.contract "ticket" ⟨rfl, ⟨rfl, rfl, rfl, rfl, rfl, rfl⟩, rfl⟩)
      (.cons (.same rfl) (.cons (.same rfl) (.cons (.same rfl) (.cons (.same rfl) .nil))))
  obtain ⟨ρ, -, hreports, -⟩ :=
    hsettings Staffed hstaffed ⊥ start start start_alike _ _ hrequests
  obtain ⟨ρ', -, hreturning, -⟩ := hpanics ⊥ start start start_alike (requests (.sink clerk))
  exact ⟨hrequests, ⟨ρ, hreports⟩, ⟨ρ', hreturning⟩, by decide +kernel, by decide +kernel,
    by decide +kernel⟩

end Turnstile

end Contracts
