/-
# What a run adds to the events

Every operation on a world puts events behind those that are there and
takes none away.  `Adds p w w'` says that `w'` is reached from `w` by
adding events that all have the property `p`; it is closed under
composition, so that a fact about a whole run follows from one fact for
each operation.

The one run looked at here is a wait: after its beginning it does nothing
but check, sleep and speak of changed statuses and of its success
(`adds_run`).  In particular it fires no trigger, calls no hook and
begins no other wait.
-/
import Passage.Proofs.Wait.Decision

namespace Passage
variable {ι σ α : Type}

/-! ## Kinds of events -/

namespace Event

/-- The number of the try for which the trigger was fired. -/
def fired? : Event ι → Option Nat
  | fired n => some n
  | _ => none

/-- The condition that was checked. -/
def checked? : Event ι → Option ι
  | checked c => some c
  | _ => none

/-- The subject for which the action after a transition was called. -/
def hooked? : Event ι → Option String
  | hooked s => some s
  | _ => none

/-- A wait begins. -/
def beginsWait : Event ι → Bool
  | noted (.waitBegun ..) => true
  | _ => false

/-- What can happen in a wait once it has begun. -/
inductive InWait : Event ι → Prop
  | checked (c : ι) : InWait (.checked c)
  | slept (d : Duration) : InWait (.slept d)
  | statusChanged (o : Origin) (c g : String) (d : Duration) :
      InWait (.noted (.statusChanged o c g d))
  | allFulfilled (n : Nat) (d : Duration) : InWait (.noted (.allFulfilled n d))

/-- What can happen when the hook of a transition has been called. -/
inductive InPause : Event ι → Prop
  | pausing (s : String) (d : Duration) : InPause (.noted (.pausing s d))
  | slept (d : Duration) : InPause (.slept d)

/-- Not a part of a try: no trigger is fired, nothing is checked and no wait begins. -/
def Quiet (e : Event ι) : Prop :=
  e.fired? = none ∧ e.checked? = none ∧ e.beginsWait = false

theorem InWait.fired? {e : Event ι} (h : e.InWait) : e.fired? = none := by
  cases h <;> rfl

theorem InWait.hooked? {e : Event ι} (h : e.InWait) : e.hooked? = none := by
  cases h <;> rfl

theorem InWait.beginsWait {e : Event ι} (h : e.InWait) : e.beginsWait = false := by
  cases h <;> rfl

theorem InPause.fired? {e : Event ι} (h : e.InPause) : e.fired? = none := by
  cases h <;> rfl

theorem InPause.hooked? {e : Event ι} (h : e.InPause) : e.hooked? = none := by
  cases h <;> rfl

theorem InPause.checked? {e : Event ι} (h : e.InPause) : e.checked? = none := by
  cases h <;> rfl

theorem InPause.beginsWait {e : Event ι} (h : e.InPause) : e.beginsWait = false := by
  cases h <;> rfl

end Event

/-! ## Adding events -/

namespace World

/-- `w'` has the events of `w`, and behind them only such as have the property. -/
def Adds (p : Event ι → Prop) (w w' : World ι σ) : Prop :=
  ∃ es, w'.events = w.events ++ es ∧ ∀ e ∈ es, p e

namespace Adds
variable {p : Event ι → Prop}

theorem refl (w : World ι σ) : Adds p w w := ⟨[], by simp, fun _ h => absurd h List.not_mem_nil⟩

theorem trans {u v w : World ι σ} (h₁ : Adds p u v) (h₂ : Adds p v w) : Adds p u w := by
  obtain ⟨es, he, hes⟩ := h₁
  obtain ⟨fs, hf, hfs⟩ := h₂
  refine ⟨es ++ fs, by rw [hf, he, List.append_assoc], ?_⟩
  intro e h
  rcases List.mem_append.mp h with h | h
  · exact hes e h
  · exact hfs e h

theorem record (w : World ι σ) {e : Event ι} (h : p e) : Adds p w (w.record e) :=
  ⟨[e], events_record w e, fun _ hx => List.mem_singleton.mp hx ▸ h⟩

theorem noteAny (w : World ι σ) {n : Option Notice} (h : ∀ m, n = some m → p (.noted m)) :
    Adds p w (w.noteAny n) := by
  cases n with
  | none => exact refl w
  | some m => exact record w (h m rfl)

theorem sleep (w : World ι σ) {d : Duration} (h : p (.slept d)) : Adds p w (w.sleep d) := by
  by_cases hd : d.nanos = 0
  · rw [World.sleep, if_pos hd]
    exact refl w
  · rw [World.sleep, if_neg hd]
    exact record (w.advance d) h

theorem check (env : Environment ι σ) (c : ι) (w : World ι σ) (h : p (.checked c)) :
    Adds p w (w.check env c).2 :=
  record w h

end Adds
end World

/-! ## The events of a wait -/

namespace Wait
open World

theorem adds_sample (env : Environment ι σ) (start : Duration) (x : Wait ι)
    (before : Option Progress) (w : World ι σ) :
    Adds Event.InWait w (sample env start x before w).2 := by
  rw [sample_eq]
  refine (Adds.check env x.condition w (.checked _)).trans (Adds.noteAny _ ?_)
  intro m hm
  by_cases h : Progress.isNews before (observed env start x before w)
  · simp only [newsOf, h, if_true, Option.some.injEq] at hm
    subst hm
    exact .statusChanged _ _ _ _
  · simp [newsOf, h] at hm

theorem adds_pass (env : Environment ι σ) (start : Duration)
    (l : List (Wait ι × Option Progress)) (w : World ι σ) :
    Adds Event.InWait w (pass env start l w).world := by
  induction l generalizing w with
  | nil => exact .refl w
  | cons head rest ih => exact (adds_sample env start head.1 head.2 w).trans (ih _)

theorem adds_rest (b : Budget) (w : World ι σ) : Adds Event.InWait w (rest b w) := by
  cases h : b.pause? w.now with
  | none =>
      rw [rest_of_no_pause h]
      exact .refl w
  | some d =>
      rw [rest_of_pause h]
      exact Adds.sleep w (.slept d)

theorem adds_passAt (env : Environment ι σ) (b : Budget) (n : Nat) :
    ∀ (l : List (Wait ι × Option Progress)) (w : World ι σ),
      Adds Event.InWait w (passAt env b l w n).world := by
  induction n with
  | zero => exact fun l w => adds_pass env b.start l w
  | succ n ih =>
      intro l w
      exact ((adds_pass env b.start l w).trans (adds_rest b _)).trans (ih _ _)

theorem adds_conclude {env : Environment ι σ} {b : Budget} {passes : Nat} {p : Pass ι σ}
    {res : Result} {w : World ι σ} (h : conclude env b passes p = some (res, w)) :
    Adds Event.InWait p.world w := by
  rcases conclude_cases h with ⟨_, -, rfl, -⟩ | ⟨-, rfl, -⟩
  · exact .refl _
  · exact Adds.record _ (.allFulfilled _ _)

theorem adds_run {env : Environment ι σ} {patience : Nat} {waits : List (Wait ι)}
    {timeout : Duration} {w w' : World ι σ} {res : Result}
    (h : run env patience waits timeout w = some (res, w')) :
    Adds Event.InWait (w.note (.waitBegun waits.length timeout)) w' := by
  obtain ⟨n, -, -, hend⟩ := run_eq_some_iff.1 h
  exact (adds_passAt env _ n _ _).trans (adds_conclude hend)

end Wait
end Passage
