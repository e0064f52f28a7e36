import Mathlib.Tactic.Common
import Mathlib.Algebra.Order.Ring.Nat

/-!
# Programs with faults and events

A program `Exec σ ε α` runs from a state, may fault, and otherwise returns a value. Either way it
leaves a state and the list of events it caused, oldest first. Events carry what the environment
answered, so an assumption about the environment is a predicate on events, not on states.

`wp assume x Q s` is the weakest precondition under such an assumption: if all events of the run of
`x` from `s` are as assumed, then the run does not fault and its value and final state satisfy `Q`.
`Keeps` is for runs that may fault: it asks for a property of the final state either way. The rules
follow the way programs are built: sequencing, counted loops, and one step for each element of a
list.
-/

/-- What a run leaves behind. -/
structure Outcome (σ ε α : Type) where
  /-- The value returned; `none` after a fault. -/
  value : Option α
  /-- The final state. -/
  state : σ
  /-- The events of the run, oldest first. -/
  events : List ε

/-- A program over the state `σ` with events `ε`. -/
def Exec (σ ε α : Type) : Type := σ → Outcome σ ε α

namespace Exec

variable {σ ε α β : Type}

/-- Run a program from a state. -/
def run (x : Exec σ ε α) (s : σ) : Outcome σ ε α := x s

/-- Return a value. -/
protected def pure (a : α) : Exec σ ε α := fun s ↦ ⟨some a, s, []⟩

/-- Run one program and, if it returns, another one on its value. -/
protected def bind (x : Exec σ ε α) (f : α → Exec σ ε β) : Exec σ ε β := fun s ↦
  match x.run s with
  | ⟨none, s', es⟩ => ⟨none, s', es⟩
  | ⟨some a, s', es⟩ => ⟨((f a).run s').value, ((f a).run s').state, es ++ ((f a).run s').events⟩

instance : Monad (Exec σ ε) where
  pure := Exec.pure
  bind := Exec.bind

/-- Read the state. -/
def get : Exec σ ε σ := fun s ↦ ⟨some s, s, []⟩

/-- Change the state. -/
def modify (f : σ → σ) : Exec σ ε Unit := fun s ↦ ⟨some (), f s, []⟩

/-- Stop. -/
def fault : Exec σ ε α := fun s ↦ ⟨none, s, []⟩

/-- Cause an event. -/
def emit (e : ε) : Exec σ ε Unit := fun s ↦ ⟨some (), s, [e]⟩

/-- The loop `for (i = 0; i < n; ++i) body(i)`. -/
def forUpTo : ℕ → (ℕ → Exec σ ε Unit) → Exec σ ε Unit
  | 0, _ => pure ()
  | n + 1, body => do
    forUpTo n body
    body n

/-- The loop `for (i = 0; i < n; ++i) b = body(i, b)`. -/
def foldUpTo : ℕ → (ℕ → β → Exec σ ε β) → β → Exec σ ε β
  | 0, _, b => pure b
  | n + 1, body, b => do
    let b' ← foldUpTo n body b
    body n b'

/-- A program on the first part of a state, with its events renamed. -/
def onFst {τ ε' : Type} (g : ε → ε') (x : Exec σ ε α) : Exec (σ × τ) ε' α := fun s ↦
  ⟨(x.run s.1).value, ((x.run s.1).state, s.2), (x.run s.1).events.map g⟩

/-- One call for each element of a list, in order. -/
def forEach (l : List α) (body : α → Exec σ ε Unit) : Exec σ ε Unit :=
  match l with
  | [] => pure ()
  | a :: l => do
    body a
    forEach l body

/-! ### Weakest preconditions -/

/-- If the events of the run are as assumed, it does not fault and ends in `Q`. -/
def wp (assume : ε → Prop) (x : Exec σ ε α) (Q : α → σ → Prop) (s : σ) : Prop :=
  (∀ e ∈ (x.run s).events, assume e) → ∃ a, (x.run s).value = some a ∧ Q a (x.run s).state

variable {assume : ε → Prop} {x : Exec σ ε α} {Q Q' : α → σ → Prop} {s : σ}

/-- A run whose events are as assumed ends as promised. -/
theorem of_wp_of_run (h : x.wp assume Q s) {a : α} {s' : σ} {es : List ε}
    (hrun : x.run s = ⟨some a, s', es⟩) (hev : ∀ e ∈ es, assume e) : Q a s' := by
  rw [wp, hrun] at h
  obtain ⟨b, hb, hq⟩ := h hev
  rwa [← Option.some.inj hb] at hq

/-- A program that needs no assumption returns. -/
theorem exists_run_of_wp (h : x.wp (fun _ ↦ True) Q s) :
    ∃ a s' es, x.run s = ⟨some a, s', es⟩ ∧ Q a s' := by
  obtain ⟨a, ha, hq⟩ := h fun _ _ ↦ trivial
  exact ⟨a, (x.run s).state, (x.run s).events, by rw [← ha], hq⟩

theorem wp_mono (h : x.wp assume Q s) (hQ : ∀ a s', Q a s' → Q' a s') : x.wp assume Q' s := by
  intro hev
  obtain ⟨a, ha, hq⟩ := h hev
  exact ⟨a, ha, hQ a _ hq⟩

theorem wp_and (h : x.wp assume Q s) (h' : x.wp assume Q' s) :
    x.wp assume (fun a s' ↦ Q a s' ∧ Q' a s') s := by
  intro hev
  obtain ⟨a, ha, hq⟩ := h hev
  obtain ⟨b, hb, hq'⟩ := h' hev
  obtain rfl := Option.some.inj (ha.symm.trans hb)
  exact ⟨a, ha, hq, hq'⟩

theorem wp_pure {a : α} (h : Q a s) : (pure a : Exec σ ε α).wp assume Q s :=
  fun _ ↦ ⟨a, rfl, h⟩

theorem wp_get {Q : σ → σ → Prop} (h : Q s s) : (get : Exec σ ε σ).wp assume Q s :=
  fun _ ↦ ⟨s, rfl, h⟩

theorem wp_modify {f : σ → σ} {Q : Unit → σ → Prop} (h : Q () (f s)) :
    (modify f : Exec σ ε Unit).wp assume Q s :=
  fun _ ↦ ⟨(), rfl, h⟩

theorem wp_emit {e : ε} {Q : Unit → σ → Prop} (h : assume e → Q () s) :
    (emit e : Exec σ ε Unit).wp assume Q s :=
  fun hev ↦ ⟨(), rfl, h (hev e (List.mem_singleton.2 rfl))⟩

@[simp] theorem run_get (s : σ) : (get : Exec σ ε σ).run s = ⟨some s, s, []⟩ := rfl

@[simp] theorem run_emit (e : ε) (s : σ) : (emit e).run s = ⟨some (), s, [e]⟩ := rfl

theorem run_eq_of_value {a : α} (h : (x.run s).value = some a) :
    x.run s = ⟨some a, (x.run s).state, (x.run s).events⟩ := by
  rw [← h]

theorem run_bind_of_some {f : α → Exec σ ε β} {a : α} {s' : σ} {es : List ε}
    (h : x.run s = ⟨some a, s', es⟩) :
    (x >>= f).run s =
      ⟨((f a).run s').value, ((f a).run s').state, es ++ ((f a).run s').events⟩ := by
  show Exec.bind x f s = _
  rw [Exec.bind, h]

theorem run_bind_of_none {f : α → Exec σ ε β} {s' : σ} {es : List ε}
    (h : x.run s = ⟨none, s', es⟩) : (x >>= f).run s = ⟨none, s', es⟩ := by
  show Exec.bind x f s = _
  rw [Exec.bind, h]

/-- Sequencing: the second program runs from where the first one ends. -/
theorem wp_bind {f : α → Exec σ ε β} {R : β → σ → Prop}
    (h : x.wp assume (fun a s' ↦ (f a).wp assume R s') s) : (x >>= f).wp assume R s := by
  intro hev
  rcases hx : x.run s with ⟨_ | a, s', es⟩
  · rw [run_bind_of_none hx] at hev
    obtain ⟨a, ha, -⟩ := h (by rw [hx]; exact hev)
    rw [hx] at ha
    exact absurd ha (by simp)
  · rw [run_bind_of_some hx] at hev ⊢
    obtain ⟨b, hb, hf⟩ := h (by rw [hx]; exact fun e he ↦ hev e (List.mem_append_left _ he))
    rw [hx] at hb hf
    obtain rfl := Option.some.inj hb
    exact hf fun e he ↦ hev e (List.mem_append_right _ he)

/-- Sequencing with the intermediate assertion written out. -/
theorem wp_bind_of {f : α → Exec σ ε β} {R : β → σ → Prop} (hx : x.wp assume Q s)
    (hf : ∀ a s', Q a s' → (f a).wp assume R s') : (x >>= f).wp assume R s :=
  wp_bind (wp_mono hx hf)

/-- Counted loops: an invariant that each turn carries one step further. -/
theorem wp_forUpTo {body : ℕ → Exec σ ε Unit} (Inv : ℕ → σ → Prop) {n : ℕ} (h₀ : Inv 0 s)
    (hstep : ∀ i < n, ∀ s', Inv i s' → (body i).wp assume (fun _ ↦ Inv (i + 1)) s') :
    (forUpTo n body).wp assume (fun _ ↦ Inv n) s := by
  induction n with
  | zero => exact wp_pure h₀
  | succ n ih =>
    have hfirst := ih fun i hi ↦ hstep i (Nat.lt_succ_of_lt hi)
    exact wp_bind_of hfirst fun _ s' hs' ↦ hstep n (Nat.lt_succ_self n) s' hs'

/-- Counted loops that carry a value along. -/
theorem wp_foldUpTo {body : ℕ → β → Exec σ ε β} (Inv : ℕ → β → σ → Prop) {n : ℕ} {b : β}
    (h₀ : Inv 0 b s)
    (hstep : ∀ i < n, ∀ b s', Inv i b s' → (body i b).wp assume (Inv (i + 1)) s') :
    (foldUpTo n body b).wp assume (Inv n) s := by
  induction n with
  | zero => exact wp_pure h₀
  | succ n ih =>
    have hfirst := ih fun i hi ↦ hstep i (Nat.lt_succ_of_lt hi)
    exact wp_bind_of hfirst fun b' s' hs' ↦ hstep n (Nat.lt_succ_self n) b' s' hs'

/-- Running on the first part of a state. -/
theorem wp_onFst {τ ε' : Type} {g : ε → ε'} {assume' : ε' → Prop} {s : σ × τ} {Q : α → σ × τ → Prop}
    (h : x.wp (fun e ↦ assume' (g e)) (fun a s' ↦ Q a (s', s.2)) s.1) :
    (x.onFst g).wp assume' Q s := by
  intro hev
  exact h fun e he ↦ hev _ (List.mem_map_of_mem he)

/-- Lists of calls: an invariant on the calls already made. -/
theorem wp_forEach {l : List α} {body : α → Exec σ ε Unit} (Inv : List α → σ → Prop) (done : List α)
    (h₀ : Inv done s)
    (hstep : ∀ before a after, done ++ l = before ++ a :: after → ∀ s', Inv before s' →
      (body a).wp assume (fun _ ↦ Inv (before ++ [a])) s') :
    (forEach l body).wp assume (fun _ ↦ Inv (done ++ l)) s := by
  induction l generalizing done s with
  | nil =>
    rw [List.append_nil]
    exact wp_pure h₀
  | cons a l ih =>
    have hsplit : done ++ a :: l = done ++ [a] ++ l := by simp
    refine wp_bind_of (hstep done a l rfl s h₀) fun _ s' hs' ↦ ?_
    rw [hsplit]
    refine ih (done ++ [a]) hs' fun before b after heq ↦ ?_
    exact hstep before b after (hsplit.trans heq)

/-! ### Runs that may fault -/

/-- If the events of the run are as assumed, it ends in `P`, also where it faults, and in `Q` if it
returns. -/
def Keeps (assume : ε → Prop) (P : σ → Prop) (x : Exec σ ε α) (Q : α → σ → Prop) (s : σ) : Prop :=
  (∀ e ∈ (x.run s).events, assume e) →
    P (x.run s).state ∧ ∀ a, (x.run s).value = some a → Q a (x.run s).state

section Keeps

variable {P : σ → Prop}

theorem keeps_of_wp (h : x.wp assume Q s) (hP : ∀ a s', Q a s' → P s') : x.Keeps assume P Q s := by
  intro hev
  obtain ⟨a, ha, hq⟩ := h hev
  exact ⟨hP a _ hq, fun b hb ↦ Option.some.inj (ha.symm.trans hb) ▸ hq⟩

theorem keeps_mono (h : x.Keeps assume P Q s) (hQ : ∀ a s', Q a s' → Q' a s') :
    x.Keeps assume P Q' s := by
  intro hev
  obtain ⟨hp, hq⟩ := h hev
  exact ⟨hp, fun a ha ↦ hQ a _ (hq a ha)⟩

theorem keeps_fault (h : P s) : (fault : Exec σ ε α).Keeps assume P Q s :=
  fun _ ↦ ⟨h, fun _ ha ↦ absurd ha (by simp [fault, run])⟩

theorem keeps_bind {f : α → Exec σ ε β} {R : β → σ → Prop} (hx : x.Keeps assume P Q s)
    (hf : ∀ a s', Q a s' → (f a).Keeps assume P R s') : (x >>= f).Keeps assume P R s := by
  intro hev
  rcases hrun : x.run s with ⟨_ | a, s', es⟩
  · rw [run_bind_of_none hrun] at hev ⊢
    obtain ⟨hp, -⟩ := hx (by rw [hrun]; exact hev)
    rw [hrun] at hp
    exact ⟨hp, fun b hb ↦ absurd hb (by simp)⟩
  · rw [run_bind_of_some hrun] at hev ⊢
    obtain ⟨-, hq⟩ := hx (by rw [hrun]; exact fun e he ↦ hev e (List.mem_append_left _ he))
    rw [hrun] at hq
    exact hf a s' (hq a rfl) fun e he ↦ hev e (List.mem_append_right _ he)

/-- Counted loops that carry a value along. -/
theorem keeps_foldUpTo {body : ℕ → β → Exec σ ε β} (Inv : ℕ → β → σ → Prop) {n : ℕ} {b : β}
    (hP : ∀ i b s', Inv i b s' → P s') (h₀ : Inv 0 b s)
    (hstep : ∀ i < n, ∀ b s', Inv i b s' → (body i b).Keeps assume P (Inv (i + 1)) s') :
    (foldUpTo n body b).Keeps assume P (Inv n) s := by
  induction n with
  | zero => exact keeps_of_wp (wp_pure h₀) (hP 0)
  | succ n ih =>
    have hfirst := ih fun i hi ↦ hstep i (Nat.lt_succ_of_lt hi)
    exact keeps_bind hfirst fun b' s' hs' ↦ hstep n (Nat.lt_succ_self n) b' s' hs'

/-- Counted loops. -/
theorem keeps_forUpTo {body : ℕ → Exec σ ε Unit} (Inv : ℕ → σ → Prop) {n : ℕ}
    (hP : ∀ i s', Inv i s' → P s') (h₀ : Inv 0 s)
    (hstep : ∀ i < n, ∀ s', Inv i s' → (body i).Keeps assume P (fun _ ↦ Inv (i + 1)) s') :
    (forUpTo n body).Keeps assume P (fun _ ↦ Inv n) s := by
  induction n with
  | zero => exact keeps_of_wp (wp_pure h₀) fun _ ↦ hP 0
  | succ n ih =>
    have hfirst := ih fun i hi ↦ hstep i (Nat.lt_succ_of_lt hi)
    exact keeps_bind hfirst fun _ s' hs' ↦ hstep n (Nat.lt_succ_self n) s' hs'

/-- Running on the first part of a state. -/
theorem keeps_onFst {τ ε' : Type} {g : ε → ε'} {assume' : ε' → Prop} {s : σ × τ} {P : σ × τ → Prop}
    {Q : α → σ × τ → Prop}
    (h : x.Keeps (fun e ↦ assume' (g e)) (fun s' ↦ P (s', s.2)) (fun a s' ↦ Q a (s', s.2)) s.1) :
    (x.onFst g).Keeps assume' P Q s := by
  intro hev
  exact h fun e he ↦ hev _ (List.mem_map_of_mem he)

end Keeps

/-! ### Two programs that behave alike -/

section Alike

variable {τ : Type} {R : σ → τ → Prop} {y : Exec τ ε α}

/-- From related states the programs return the same value and cause the same events, and they end
in related states. -/
def Alike (R : σ → τ → Prop) (x : Exec σ ε α) (y : Exec τ ε α) : Prop :=
  ∀ s t, R s t → (x.run s).value = (y.run t).value ∧ (x.run s).events = (y.run t).events ∧
    R (x.run s).state (y.run t).state

/-- What is known of one of them holds of the other one. -/
theorem wp_of_alike {Q : α → τ → Prop} {t : τ} (h : Alike R x y) (hR : R s t)
    (hy : y.wp assume Q t) : x.wp assume (fun a s' ↦ ∃ t', R s' t' ∧ Q a t') s := by
  obtain ⟨hvalue, hevents, hstate⟩ := h s t hR
  intro hev
  obtain ⟨a, ha, hq⟩ := hy (hevents ▸ hev)
  exact ⟨a, hvalue.trans ha, _, hstate, hq⟩

theorem alike_pure (a : α) : Alike R (pure a : Exec σ ε α) (pure a) :=
  fun _ _ hR ↦ ⟨rfl, rfl, hR⟩

theorem alike_fault : Alike R (fault : Exec σ ε α) fault := fun _ _ hR ↦ ⟨rfl, rfl, hR⟩

theorem alike_emit (e : ε) : Alike R (emit e : Exec σ ε Unit) (emit e) :=
  fun _ _ hR ↦ ⟨rfl, rfl, hR⟩

theorem alike_modify {f : σ → σ} {g : τ → τ} (h : ∀ s t, R s t → R (f s) (g t)) :
    Alike R (modify f : Exec σ ε Unit) (modify g) :=
  fun s t hR ↦ ⟨rfl, rfl, h s t hR⟩

theorem alike_bind {f : α → Exec σ ε β} {g : α → Exec τ ε β} (h : Alike R x y)
    (hf : ∀ a, Alike R (f a) (g a)) : Alike R (x >>= f) (y >>= g) := by
  intro s t hR
  obtain ⟨hvalue, hevents, hstate⟩ := h s t hR
  rcases hx : x.run s with ⟨_ | a, s', es⟩ <;> rcases hy : y.run t with ⟨_ | a', t', es'⟩ <;>
    rw [hx, hy] at hvalue hevents hstate
  · rw [run_bind_of_none hx, run_bind_of_none hy]
    exact ⟨rfl, hevents, hstate⟩
  · exact absurd hvalue (by simp)
  · exact absurd hvalue (by simp)
  · obtain rfl := Option.some.inj hvalue
    obtain ⟨hvalue', hevents', hstate'⟩ := hf a s' t' hstate
    rw [run_bind_of_some hx, run_bind_of_some hy]
    exact ⟨hvalue', congrArg₂ (· ++ ·) hevents hevents', hstate'⟩

theorem alike_foldUpTo {n : ℕ} {body : ℕ → β → Exec σ ε β} {body' : ℕ → β → Exec τ ε β}
    (h : ∀ i b, Alike R (body i b) (body' i b)) (b : β) :
    Alike R (foldUpTo n body b) (foldUpTo n body' b) := by
  induction n with
  | zero => exact alike_pure b
  | succ n ih => exact alike_bind ih fun b' ↦ h n b'

/-- A program on the first part does not look at the second one. -/
theorem alike_onFst {ρ ε' : Type} {R : σ → τ → Prop} (g : ε → ε') (x : Exec ρ ε α) :
    Alike (fun s t ↦ s.1 = t.1 ∧ R s.2 t.2) (x.onFst g : Exec (ρ × σ) ε' α) (x.onFst g) := by
  rintro ⟨r, s⟩ ⟨_, t⟩ ⟨rfl, hR⟩
  exact ⟨rfl, rfl, rfl, hR⟩

end Alike

/-! ### Events that do not depend on the run -/

/-- All events of all runs satisfy `P`. -/
def Emits (P : ε → Prop) (x : Exec σ ε α) : Prop := ∀ s, ∀ e ∈ (x.run s).events, P e

variable {P : ε → Prop}

theorem emits_pure (a : α) : (pure a : Exec σ ε α).Emits P :=
  fun _ _ he ↦ absurd he List.not_mem_nil

theorem emits_get : (get : Exec σ ε σ).Emits P :=
  fun _ _ he ↦ absurd he List.not_mem_nil

theorem emits_modify (f : σ → σ) : (modify f : Exec σ ε Unit).Emits P :=
  fun _ _ he ↦ absurd he List.not_mem_nil

theorem emits_fault : (fault : Exec σ ε α).Emits P :=
  fun _ _ he ↦ absurd he List.not_mem_nil

theorem emits_emit {e : ε} (h : P e) : (emit e : Exec σ ε Unit).Emits P := by
  intro _ e' he
  rwa [List.mem_singleton.1 he]

/-- The events of two programs in sequence. -/
theorem mem_events_bind {f : α → Exec σ ε β} {e : ε} :
    e ∈ ((x >>= f).run s).events ↔ e ∈ (x.run s).events ∨
      ∃ a, (x.run s).value = some a ∧ e ∈ ((f a).run (x.run s).state).events := by
  rcases hx : x.run s with ⟨_ | a, s', es⟩
  · rw [run_bind_of_none hx]
    simp
  · rw [run_bind_of_some hx]
    simp

theorem emits_bind {f : α → Exec σ ε β} (hx : x.Emits P) (hf : ∀ a, (f a).Emits P) :
    (x >>= f).Emits P := by
  intro s e he
  rcases mem_events_bind.1 he with h | ⟨a, -, h⟩
  · exact hx s e h
  · exact hf a _ e h

theorem emits_forUpTo {n : ℕ} {body : ℕ → Exec σ ε Unit} (h : ∀ i, (body i).Emits P) :
    (forUpTo n body).Emits P := by
  induction n with
  | zero => exact emits_pure ()
  | succ n ih => exact emits_bind ih fun _ ↦ h n

/-! ### Events that other events lead to -/

/-- Every run has an event that satisfies `P`. -/
def Surely (P : ε → Prop) (x : Exec σ ε α) : Prop := ∀ s, ∃ e ∈ (x.run s).events, P e

theorem surely_emit {e : ε} (h : P e) : (emit e : Exec σ ε Unit).Surely P :=
  fun _ ↦ ⟨e, List.mem_singleton.2 rfl, h⟩

theorem surely_bind {f : α → Exec σ ε β} (h : x.Surely P) : (x >>= f).Surely P := by
  intro s
  obtain ⟨e, he, hP⟩ := h s
  exact ⟨e, mem_events_bind.2 (Or.inl he), hP⟩

/-- The first turn of a loop is made. -/
theorem surely_forUpTo {n : ℕ} {body : ℕ → Exec σ ε Unit} (h : (body 0).Surely P) :
    (forUpTo (n + 1) body).Surely P := by
  induction n with
  | zero =>
    intro s
    obtain ⟨e, he, hP⟩ := h s
    exact ⟨e, mem_events_bind.2 (Or.inr ⟨(), rfl, he⟩), hP⟩
  | succ n ih => exact surely_bind ih

/-- Every run has an event `R` or returns a value in `bad`. -/
def Ends (R : ε → Prop) (bad : α → Prop) (x : Exec σ ε α) : Prop :=
  ∀ s, (∃ e ∈ (x.run s).events, R e) ∨ ∃ a, (x.run s).value = some a ∧ bad a

/-- A run with an event `P` also has an event `R`, or it returns a value in `bad`. -/
def Leads (P R : ε → Prop) (bad : α → Prop) (x : Exec σ ε α) : Prop :=
  ∀ s, (∃ e ∈ (x.run s).events, P e) →
    (∃ e ∈ (x.run s).events, R e) ∨ ∃ a, (x.run s).value = some a ∧ bad a

variable {R : ε → Prop} {bad : α → Prop} {bad' : β → Prop}

theorem ends_pure {a : α} (h : bad a) : (pure a : Exec σ ε α).Ends R bad :=
  fun _ ↦ Or.inr ⟨a, rfl, h⟩

theorem ends_of_surely (h : x.Surely R) : x.Ends R bad :=
  fun s ↦ Or.inl (h s)

/-- A program without events `P` has nothing to show. -/
theorem leads_of_emits (h : x.Emits fun e ↦ ¬ P e) : x.Leads P R bad :=
  fun s ⟨e, he, hP⟩ ↦ absurd hP (h s e he)

/-- Sequencing: where the first program returns a value in `bad`, the second one has to answer for
it. -/
theorem leads_bind {f : α → Exec σ ε β} (hx : x.Leads P R bad)
    (hbad : ∀ a, bad a → (f a).Ends R bad')
    (hf : ∀ a, (f a).Leads P R bad') : (x >>= f).Leads P R bad' := by
  -- what the second program shows, the sequence shows
  have hsecond : ∀ {s a}, (x.run s).value = some a →
      ((∃ e ∈ ((f a).run (x.run s).state).events, R e) ∨
        ∃ b, ((f a).run (x.run s).state).value = some b ∧ bad' b) →
      (∃ e ∈ ((x >>= f).run s).events, R e) ∨ ∃ b, ((x >>= f).run s).value = some b ∧ bad' b := by
    rintro s a ha (⟨r, hr, hR⟩ | ⟨b, hb, hbb⟩)
    · exact Or.inl ⟨r, mem_events_bind.2 (Or.inr ⟨a, ha, hr⟩), hR⟩
    · refine Or.inr ⟨b, ?_, hbb⟩
      rw [run_bind_of_some (run_eq_of_value ha)]
      exact hb
  rintro s ⟨e, he, hP⟩
  rcases mem_events_bind.1 he with hfirst | ⟨a, ha, hlater⟩
  · rcases hx s ⟨e, hfirst, hP⟩ with ⟨r, hr, hR⟩ | ⟨a, ha, hab⟩
    · exact Or.inl ⟨r, mem_events_bind.2 (Or.inl hr), hR⟩
    · exact hsecond ha (hbad a hab _)
  · exact hsecond ha (hf a _ ⟨e, hlater, hP⟩)

/-- A loop whose turns leave nothing bad behind. -/
theorem leads_forUpTo {n : ℕ} {body : ℕ → Exec σ ε Unit}
    (h : ∀ i, (body i).Leads P R fun _ ↦ False) : (forUpTo n body).Leads P R fun _ ↦ False := by
  induction n with
  | zero => exact leads_of_emits (emits_pure ())
  | succ n ih => exact leads_bind ih (fun _ hbad ↦ absurd hbad id) fun _ ↦ h n

/-! ### Events and results of a run, faulting or not -/

/-- All events of the run are in `P`; if it returns, its value, final state and events are as `Q`
says. -/
def Yields (P : ε → Prop) (Q : α → σ → List ε → Prop) (x : Exec σ ε α) (s : σ) : Prop :=
  (∀ e ∈ (x.run s).events, P e) ∧
    ∀ a, (x.run s).value = some a → Q a (x.run s).state (x.run s).events

section Yields

variable {Q Q' : α → σ → List ε → Prop} {T : β → σ → List ε → Prop}

theorem yields_mono (h : x.Yields P Q s) (hQ : ∀ a s' es, Q a s' es → Q' a s' es) :
    x.Yields P Q' s :=
  ⟨h.1, fun a ha ↦ hQ a _ _ (h.2 a ha)⟩

theorem yields_and {P' : ε → Prop} (h : x.Yields P Q s) (h' : x.Yields P' Q' s) :
    x.Yields P (fun a s' es ↦ Q a s' es ∧ Q' a s' es) s :=
  ⟨h.1, fun a ha ↦ ⟨h.2 a ha, h'.2 a ha⟩⟩

/-- Where all events are in `P` anyway. -/
theorem yields_of_wp {Q : α → σ → Prop} (he : x.Emits P) (h : x.wp P Q s) :
    x.Yields P (fun a s' _ ↦ Q a s') s := by
  refine ⟨he s, fun a ha ↦ ?_⟩
  obtain ⟨b, hb, hq⟩ := h (he s)
  exact Option.some.inj (hb.symm.trans ha) ▸ hq

theorem yields_pure {a : α} (h : Q a s []) : (pure a : Exec σ ε α).Yields P Q s :=
  ⟨emits_pure a s, fun _ hb ↦ Option.some.inj hb ▸ h⟩

theorem yields_fault : (fault : Exec σ ε α).Yields P Q s :=
  ⟨emits_fault s, fun _ hb ↦ absurd hb (by simp [fault, run])⟩

theorem yields_get {Q : σ → σ → List ε → Prop} (h : Q s s []) : (get : Exec σ ε σ).Yields P Q s :=
  ⟨emits_get s, fun _ hb ↦ Option.some.inj hb ▸ h⟩

theorem yields_modify {f : σ → σ} {Q : Unit → σ → List ε → Prop} (h : Q () (f s) []) :
    (modify f : Exec σ ε Unit).Yields P Q s :=
  ⟨emits_modify f s, fun _ _ ↦ h⟩

theorem yields_emit {e : ε} {Q : Unit → σ → List ε → Prop} (he : P e) (h : Q () s [e]) :
    (emit e : Exec σ ε Unit).Yields P Q s :=
  ⟨emits_emit he s, fun _ _ ↦ h⟩

/-- Sequencing: the events of the second program come after those of the first. -/
theorem yields_bind {f : α → Exec σ ε β} (hx : x.Yields P Q s)
    (hf : ∀ a s' es, Q a s' es → (f a).Yields P (fun b s'' es' ↦ T b s'' (es ++ es')) s') :
    (x >>= f).Yields P T s := by
  rcases hrun : x.run s with ⟨_ | a, s', es⟩
  · rw [Yields, run_bind_of_none hrun]
    refine ⟨fun e he ↦ hx.1 e ?_, fun b hb ↦ absurd hb (by simp)⟩
    rw [hrun]
    exact he
  · have hq := hx.2 a (by rw [hrun])
    rw [hrun] at hq
    obtain ⟨hev, hval⟩ := hf a s' es hq
    rw [Yields, run_bind_of_some hrun]
    refine ⟨fun e he ↦ ?_, hval⟩
    rcases List.mem_append.1 he with hfirst | hsecond
    · exact hx.1 e (by rw [hrun]; exact hfirst)
    · exact hev e hsecond

/-- Counted loops that carry a value along. -/
theorem yields_foldUpTo {body : ℕ → β → Exec σ ε β}
    (Inv : ℕ → β → σ → List ε → Prop) {n : ℕ} {b : β}
    (h₀ : Inv 0 b s [])
    (hstep : ∀ i < n, ∀ b s' es, Inv i b s' es →
      (body i b).Yields P (fun b' s'' es' ↦ Inv (i + 1) b' s'' (es ++ es')) s') :
    (foldUpTo n body b).Yields P (Inv n) s := by
  induction n with
  | zero => exact yields_pure h₀
  | succ n ih =>
    have hfirst := ih fun i hi ↦ hstep i (Nat.lt_succ_of_lt hi)
    exact yields_bind hfirst fun b' s' es hs' ↦ hstep n (Nat.lt_succ_self n) b' s' es hs'

/-- Counted loops. -/
theorem yields_forUpTo {body : ℕ → Exec σ ε Unit} (Inv : ℕ → σ → List ε → Prop) {n : ℕ}
    (h₀ : Inv 0 s [])
    (hstep : ∀ i < n, ∀ s' es, Inv i s' es →
      (body i).Yields P (fun _ s'' es' ↦ Inv (i + 1) s'' (es ++ es')) s') :
    (forUpTo n body).Yields P (fun _ ↦ Inv n) s := by
  induction n with
  | zero => exact yields_pure h₀
  | succ n ih =>
    have hfirst := ih fun i hi ↦ hstep i (Nat.lt_succ_of_lt hi)
    exact yields_bind hfirst fun _ s' es hs' ↦ hstep n (Nat.lt_succ_self n) s' es hs'

/-- Running on the first part of a state. -/
theorem yields_onFst {τ ε' : Type} {g : ε → ε'} {P : ε' → Prop} {s : σ × τ}
    {Q : α → σ × τ → List ε' → Prop}
    (h : x.Yields (fun e ↦ P (g e)) (fun a s' es ↦ Q a (s', s.2) (es.map g)) s.1) :
    (x.onFst g).Yields P Q s := by
  refine ⟨fun e' he' ↦ ?_, h.2⟩
  obtain ⟨e, he, rfl⟩ := List.mem_map.1 he'
  exact h.1 e he

end Yields

end Exec
