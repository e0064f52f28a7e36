import Mathlib.Data.Nat.Notation
import Mathlib.Tactic.Common

/-!
# Dialogues of a client with a device

A device answers requests and changes its state with each of them; a client chooses its next request
from the answers it got so far. `Dialogue.answers` are the answers of the first rounds.

Two devices that go through related states give every client the same answers
(`answers_eq_of_related`). A device whose answers depend on what went before can often be replaced
by a *scripted* one, whose answer in each round depends on the request and on an outcome fixed
beforehand: if every answer is that of some outcome, then for every client there is a script
(`exists_script`). What holds of a client for every script holds of it on the device.
-/

namespace Dialogue

variable {σ τ Q R C : Type*}

/-- The answers of the first rounds, and the state of the device behind them. -/
def talk (step : σ → Q → R × σ) (client : List R → Q) (s : σ) : ℕ → List R × σ
  | 0 => ([], s)
  | n + 1 =>
    let before := talk step client s n
    let after := step before.2 (client before.1)
    (before.1 ++ [after.1], after.2)

/-- The answers of the first rounds. -/
def answers (step : σ → Q → R × σ) (client : List R → Q) (s : σ) (n : ℕ) : List R :=
  (talk step client s n).1

/-- A device with a script: in the round `k` it answers as the outcome `script k` says. -/
def scripted (reply : C → Q → R) (script : ℕ → C) (k : ℕ) (q : Q) : R × ℕ :=
  (reply (script k) q, k + 1)

variable {step : σ → Q → R × σ} {step' : τ → Q → R × τ} {client : List R → Q} {s : σ} {t : τ}

/-- An invariant of the steps holds behind every round. -/
theorem talk_invariant {I : σ → Prop} (hstep : ∀ s q, I s → I (step s q).2) (h : I s) (n : ℕ) :
    I (talk step client s n).2 := by
  induction n with
  | zero => exact h
  | succ n ih => exact hstep _ _ ih

/-- Related devices stay related, and give the same answers. -/
theorem talk_related {Rel : σ → τ → Prop}
    (hstep : ∀ s t q, Rel s t → (step s q).1 = (step' t q).1 ∧ Rel (step s q).2 (step' t q).2)
    (h : Rel s t) (n : ℕ) :
    (talk step client s n).1 = (talk step' client t n).1 ∧
      Rel (talk step client s n).2 (talk step' client t n).2 := by
  induction n with
  | zero => exact ⟨rfl, h⟩
  | succ n ih =>
    obtain ⟨hsame, hrel⟩ := ih
    obtain ⟨hanswer, hnext⟩ := hstep _ _ (client (talk step' client t n).1) hrel
    rw [talk, talk, hsame, hanswer]
    exact ⟨rfl, hnext⟩

/-- **Related devices** give every client the same answers. -/
theorem answers_eq_of_related {Rel : σ → τ → Prop}
    (hstep : ∀ s t q, Rel s t → (step s q).1 = (step' t q).1 ∧ Rel (step s q).2 (step' t q).2)
    (h : Rel s t) (client : List R → Q) (n : ℕ) :
    answers step client s n = answers step' client t n :=
  (talk_related hstep h n).1

/-- The state of a scripted device is the round. -/
theorem talk_scripted (reply : C → Q → R) (script : ℕ → C) (k n : ℕ) :
    (talk (scripted reply script) client k n).2 = k + n := by
  induction n with
  | zero => rfl
  | succ n ih =>
    rw [talk]
    dsimp only [scripted]
    rw [ih, Nat.add_assoc]

/-- **There is a script for every client** if every answer of the device is that of an outcome. -/
theorem exists_script {I : σ → Prop} {reply : C → Q → R}
    (hstep : ∀ s q, I s → ∃ c, (step s q).1 = reply c q ∧ I (step s q).2) (h : I s)
    (client : List R → Q) :
    ∃ script : ℕ → C, ∀ n,
      answers step client s n = answers (scripted reply script) client 0 n := by
  have hkeep (n : ℕ) : I (talk step client s n).2 :=
    talk_invariant (fun s q hs ↦ (hstep s q hs).elim fun _ hc ↦ hc.2) h n
  -- the outcome of a round is the one of the answer that the device gives in it
  choose script hscript _ using fun n ↦
    hstep _ (client (talk step client s n).1) (hkeep n)
  refine ⟨script, fun n ↦ ?_⟩
  induction n with
  | zero => rfl
  | succ n ih =>
    have hround : (talk (scripted reply script) client 0 n).2 = 0 + n :=
      talk_scripted reply script 0 n
    rw [answers, answers] at ih ⊢
    rw [talk, talk]
    dsimp only [scripted]
    rw [hscript n, hround, Nat.zero_add, ih]

end Dialogue
