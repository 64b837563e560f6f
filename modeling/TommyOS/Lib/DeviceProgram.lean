import Mathlib.Data.Nat.Find
import Mathlib.Data.Nat.Notation
import Mathlib.Logic.Relation
import TommyOS.Lib.TransitionSystem

/-!
# Programs that share a device

A driver reads and writes the registers of a device one access at a time, and waits by reading
until the device is ready. The device takes steps of its own between any two accesses. What is
asked of a program is therefore asked of every state that the device can reach in between: a
guarantee for each access, a condition on the state at the end, and for each wait that the device
answers it. Nothing here names a particular device.
-/

open Relation

universe u

/-- A program over registers `σ`: each access is atomic and gives the program the state that it
found. -/
inductive DeviceProgram (σ α : Type u) where
  | done (a : α)
  | access (effect : σ → σ) (next : σ → DeviceProgram σ α)
  | await (ready : σ → Bool) (next : DeviceProgram σ α)

namespace DeviceProgram

variable {σ α β : Type u}

def bind : DeviceProgram σ α → (α → DeviceProgram σ β) → DeviceProgram σ β
  | done a, k => k a
  | access effect next, k => access effect fun s => (next s).bind k
  | await ready next, k => await ready (next.bind k)

instance : Monad (DeviceProgram σ) where
  pure := done
  bind := bind

/-- One read. -/
def read (f : σ → β) : DeviceProgram σ β := access id fun s => done (f s)

/-- One access that changes the device and answers. -/
def exchange (effect : σ → σ) (f : σ → β) : DeviceProgram σ β := access effect fun s => done (f s)

/-- One write. -/
def write (effect : σ → σ) : DeviceProgram σ PUnit := access effect fun _ => done ⟨⟩

/-- A loop of reads that ends when the device is ready. -/
def wait (ready : σ → Bool) : DeviceProgram σ PUnit := await ready (done ⟨⟩)

/-! ## Interleavings -/

/-- A step of the program. A read of a loop that goes on is no step. -/
inductive ProgramStep : DeviceProgram σ α × σ → DeviceProgram σ α × σ → Prop where
  | access {effect : σ → σ} {next : σ → DeviceProgram σ α} {s : σ} :
      ProgramStep (access effect next, s) (next s, effect s)
  | await {ready : σ → Bool} {next : DeviceProgram σ α} {s : σ} (hready : ready s = true) :
      ProgramStep (await ready next, s) (next, s)

/-- A step of the program or of the device. -/
inductive Step (device : σ → σ → Prop) :
    DeviceProgram σ α × σ → DeviceProgram σ α × σ → Prop where
  | program {c d : DeviceProgram σ α × σ} (h : ProgramStep c d) : Step device c d
  | device {p : DeviceProgram σ α} {s t : σ} (h : device s t) : Step device (p, s) (p, t)

/-- The program from its start, beside the device. -/
def system (device : σ → σ → Prop) (p : DeviceProgram σ α) (init : σ → Prop) :
    TransitionSystem (DeviceProgram σ α × σ) where
  init c := c.1 = p ∧ init c.2
  step := Step device

/-! ## Contracts -/

/-- What a device may do, what every access of the program must respect, and on which waits the
device has an answer: in a state that keeps a condition it will be ready. -/
structure Contract (σ : Type u) where
  device : σ → σ → Prop
  guarantee : σ → σ → Prop
  guarantee_refl : ∀ s, guarantee s s
  answers : (σ → Prop) → (σ → Bool) → Prop

variable {C : Contract σ} {post : α → σ → Prop} {p : DeviceProgram σ α} {s t : σ}

/-- The program meets its contract from a state on. -/
def Meets (C : Contract σ) (post : α → σ → Prop) : DeviceProgram σ α → σ → Prop
  | done a, s => ∀ t, ReflTransGen C.device s t → post a t
  | access effect next, s => ∀ t, ReflTransGen C.device s t →
      C.guarantee t (effect t) ∧ Meets C post (next t) (effect t)
  | await ready next, s =>
      (∃ I, C.answers I ready ∧ ∀ t, ReflTransGen C.device s t → I t) ∧
        ∀ t, ReflTransGen C.device s t → ready t = true → Meets C post next t

theorem Meets.device (h : Meets C post p s) (hst : C.device s t) : Meets C post p t := by
  cases p with
  | done a => exact fun u hu => h u (hu.head hst)
  | access effect next => exact fun u hu => h u (hu.head hst)
  | await ready next =>
    obtain ⟨⟨I, hanswers, hI⟩, hnext⟩ := h
    exact ⟨⟨I, hanswers, fun u hu => hI u (hu.head hst)⟩, fun u hu => hnext u (hu.head hst)⟩

theorem Meets.step {c d : DeviceProgram σ α × σ} (h : Meets C post c.1 c.2)
    (hstep : Step C.device c d) : Meets C post d.1 d.2 := by
  cases hstep with
  | program hprogram =>
    cases hprogram with
    | access => exact (h _ .refl).2
    | await hready => exact h.2 _ .refl hready
  | device hdevice => exact h.device hdevice

/-- A contract that is met at the start is met in every state of every interleaving. -/
theorem Meets.reachable {init : σ → Prop} (h : ∀ s, init s → Meets C post p s)
    {c : DeviceProgram σ α × σ} (hc : (system C.device p init).Reachable c) :
    Meets C post c.1 c.2 := by
  refine TransitionSystem.Reachable.invariant
    (P := fun c : DeviceProgram σ α × σ => Meets C post c.1 c.2) ?_ ?_ hc
  · rintro ⟨q, s⟩ ⟨rfl, hs⟩
    exact h s hs
  · intro c d _ hmeets hstep
    exact hmeets.step hstep

/-- Every step of the program respects the guarantee. -/
theorem Meets.guarantee {c d : DeviceProgram σ α × σ} (h : Meets C post c.1 c.2)
    (hstep : ProgramStep c d) : C.guarantee c.2 d.2 := by
  cases hstep with
  | access => exact (h _ .refl).1
  | await => exact C.guarantee_refl _

theorem Meets.at_end {a : α} (h : Meets C post (done a) s) : post a s := h s .refl

theorem Meets.mono {post' : α → σ → Prop} (h : Meets C post p s)
    (hpost : ∀ a t, post a t → post' a t) : Meets C post' p s := by
  induction p generalizing s with
  | done a => exact fun t ht => hpost a t (h t ht)
  | access effect next ih => exact fun t ht => ⟨(h t ht).1, ih t (h t ht).2⟩
  | await ready next ih => exact ⟨h.1, fun t ht hready => ih (h.2 t ht hready)⟩

/-- A program followed by another one. -/
theorem Meets.bind {k : α → DeviceProgram σ β} {post' : β → σ → Prop} (h : Meets C post p s)
    (hk : ∀ a t, post a t → Meets C post' (k a) t) : Meets C post' (p >>= k) s := by
  change Meets C post' (p.bind k) s
  induction p generalizing s with
  | done a => exact hk a s h.at_end
  | access effect next ih => exact fun t ht => ⟨(h t ht).1, ih t (h t ht).2⟩
  | await ready next ih => exact ⟨h.1, fun t ht hready => ih (h.2 t ht hready)⟩

/-! ## Rules

A condition that the device keeps carries over to the state in which the access happens. -/

section Rules

variable {I : σ → Prop} {k : β → DeviceProgram σ α}

/-- The device keeps a condition. -/
def Stable (device : σ → σ → Prop) (I : σ → Prop) : Prop := ∀ s t, I s → device s t → I t

theorem Stable.closed (hI : Stable C.device I) (hs : I s) (h : ReflTransGen C.device s t) :
    I t := by
  induction h with
  | refl => exact hs
  | tail _ hstep ih => exact hI _ _ ih hstep

theorem Stable.and {J : σ → Prop} (hI : Stable C.device I) (hJ : Stable C.device J) :
    Stable C.device fun s => I s ∧ J s :=
  fun s t hs hst => ⟨hI s t hs.1 hst, hJ s t hs.2 hst⟩

theorem meets_pure {a : α} (hI : Stable C.device I) (hs : I s) (h : ∀ t, I t → post a t) :
    Meets C post (pure a) s :=
  fun t ht => h t (hI.closed hs ht)

theorem meets_read {f : σ → β} (hI : Stable C.device I) (hs : I s)
    (h : ∀ t, I t → Meets C post (k (f t)) t) : Meets C post (read f >>= k) s :=
  fun t ht => ⟨C.guarantee_refl t, h t (hI.closed hs ht)⟩

theorem meets_exchange {effect : σ → σ} {f : σ → β} (hI : Stable C.device I) (hs : I s)
    (hguarantee : ∀ t, I t → C.guarantee t (effect t))
    (h : ∀ t, I t → Meets C post (k (f t)) (effect t)) : Meets C post (exchange effect f >>= k) s :=
  fun t ht => ⟨hguarantee t (hI.closed hs ht), h t (hI.closed hs ht)⟩

theorem meets_write {effect : σ → σ} {k : PUnit → DeviceProgram σ α} (hI : Stable C.device I)
    (hs : I s) (hguarantee : ∀ t, I t → C.guarantee t (effect t))
    (h : ∀ t, I t → Meets C post (k ⟨⟩) (effect t)) : Meets C post (write effect >>= k) s :=
  fun t ht => ⟨hguarantee t (hI.closed hs ht), h t (hI.closed hs ht)⟩

theorem meets_wait {J : σ → Prop} {ready : σ → Bool} {k : PUnit → DeviceProgram σ α}
    (hI : Stable C.device I) (hs : I s) (hanswers : C.answers J ready) (hJ : ∀ t, I t → J t)
    (h : ∀ t, I t → ready t = true → Meets C post (k ⟨⟩) t) :
    Meets C post (wait ready >>= k) s :=
  ⟨⟨J, hanswers, fun _ ht => hJ _ (hI.closed hs ht)⟩, fun t ht => h t (hI.closed hs ht)⟩

/-- A program that ends with a write. -/
theorem meets_write_last {effect : σ → σ} {post : PUnit → σ → Prop} (hI : Stable C.device I)
    (hs : I s) (hguarantee : ∀ t, I t → C.guarantee t (effect t))
    (h : ∀ t, I t → Meets C post (pure ⟨⟩) (effect t)) : Meets C post (write effect) s :=
  meets_write hI hs hguarantee h

/-- A program that ends with a wait. -/
theorem meets_wait_last {J : σ → Prop} {ready : σ → Bool} {post : PUnit → σ → Prop}
    (hI : Stable C.device I) (hs : I s) (hanswers : C.answers J ready) (hJ : ∀ t, I t → J t)
    (h : ∀ t, I t → ready t = true → Meets C post (pure ⟨⟩) t) :
    Meets C post (wait ready) s :=
  meets_wait (k := pure) hI hs hanswers hJ h

end Rules

/-! ## Termination -/

section Termination

variable {tr : ℕ → DeviceProgram σ α × σ}

/-- In a run, the device answers a wait: while the program waits in states that keep a condition,
the device becomes ready and stays so. -/
def AnswersIn (tr : ℕ → DeviceProgram σ α × σ) (I : σ → Prop) (ready : σ → Bool) : Prop :=
  ∀ n, (∀ m, n ≤ m → (∃ next, (tr m).1 = await ready next) ∧ I (tr m).2) →
    ∃ m, n ≤ m ∧ ∀ k, m ≤ k → ready (tr k).2 = true

/-- A run of the program beside the device in which the program is not held up for ever. -/
structure FairRun (device : σ → σ → Prop) (tr : ℕ → DeviceProgram σ α × σ) : Prop where
  step : ∀ n, Step device (tr n) (tr (n + 1))
  fair : ∀ n, (∀ m, n ≤ m → ∃ d, ProgramStep (tr m) d) →
    ∃ m, n ≤ m ∧ ProgramStep (tr m) (tr (m + 1))

/-- Up to its next step the program stays where it is, and only the device moves. -/
theorem FairRun.stays (hrun : FairRun C.device tr) {n m : ℕ} (hnm : n ≤ m)
    (hquiet : ∀ j, n ≤ j → j < m → ¬ ProgramStep (tr j) (tr (j + 1))) :
    (tr m).1 = (tr n).1 ∧ ReflTransGen C.device (tr n).2 (tr m).2 := by
  induction m, hnm using Nat.le_induction with
  | base => exact ⟨rfl, .refl⟩
  | succ m hm ih =>
    obtain ⟨hsame, hreach⟩ := ih fun j hj hjm => hquiet j hj (by omega)
    have hstep := hrun.step m
    generalize hc : tr m = c, hd : tr (m + 1) = d at hstep hsame hreach
    cases hstep with
    | program hprogram => exact absurd (hc ▸ hd ▸ hprogram) (hquiet m hm (by omega))
    | device hdevice => exact ⟨hsame, hreach.tail hdevice⟩

/-- A program that meets its contract takes its next step, unless it is at its end. -/
theorem FairRun.moves (hrun : FairRun C.device tr)
    (hanswers : ∀ I ready, C.answers I ready → AnswersIn tr I ready) {n : ℕ}
    (hmeets : Meets C post (tr n).1 (tr n).2) (hdone : ∀ a, (tr n).1 ≠ done a) :
    ∃ m, n ≤ m ∧ ProgramStep (tr m) (tr (m + 1)) := by
  by_contra hnone
  have hquiet : ∀ m, n ≤ m → (tr m).1 = (tr n).1 ∧ ReflTransGen C.device (tr n).2 (tr m).2 :=
    fun m hm => hrun.stays hm fun j hj _ hstep => hnone ⟨j, hj, hstep⟩
  cases hp : (tr n).1 with
  | done a => exact hdone a hp
  | access effect next =>
    refine hnone (hrun.fair n fun m hm => ⟨(next (tr m).2, effect (tr m).2), ?_⟩)
    have hm : tr m = (access effect next, (tr m).2) := Prod.ext ((hquiet m hm).1.trans hp) rfl
    rw [hm]
    exact .access
  | await ready next =>
    rw [hp] at hmeets
    obtain ⟨⟨I, hI, hkept⟩, -⟩ := hmeets
    -- the device answers, and from then on the program could go on
    obtain ⟨m, hnm, hready⟩ := hanswers I ready hI n fun m hm =>
      ⟨⟨next, (hquiet m hm).1.trans hp⟩, hkept _ (hquiet m hm).2⟩
    obtain ⟨j, hmj, hstep⟩ := hrun.fair m fun j hj => ⟨(next, (tr j).2), by
      have hj' : tr j = (await ready next, (tr j).2) :=
        Prod.ext ((hquiet j (Nat.le_trans hnm hj)).1.trans hp) rfl
      rw [hj']
      exact .await (hready j hj)⟩
    exact hnone ⟨j, Nat.le_trans hnm hmj, hstep⟩

/-- The first step that a program takes from some time on. -/
theorem FairRun.first_move (hrun : FairRun C.device tr) {n : ℕ}
    (h : ∃ m, n ≤ m ∧ ProgramStep (tr m) (tr (m + 1))) :
    ∃ m s d, tr m = ((tr n).1, s) ∧ tr (m + 1) = d ∧ ProgramStep ((tr n).1, s) d := by
  classical
  obtain ⟨hnm, hstep⟩ := Nat.find_spec h
  have hfirst : ∀ j, n ≤ j → j < Nat.find h → ¬ ProgramStep (tr j) (tr (j + 1)) :=
    fun j hj hlt hstep => Nat.find_min h hlt ⟨hj, hstep⟩
  have hm : tr (Nat.find h) = ((tr n).1, (tr (Nat.find h)).2) :=
    Prod.ext (hrun.stays hnm hfirst).1 rfl
  exact ⟨Nat.find h, _, _, hm, rfl, hm ▸ hstep⟩

theorem FairRun.meets (hrun : FairRun C.device tr) (h : Meets C post (tr 0).1 (tr 0).2) (n : ℕ) :
    Meets C post (tr n).1 (tr n).2 := by
  induction n with
  | zero => exact h
  | succ n ih => exact ih.step (hrun.step n)

/-- In a fair run with a device that answers, a program that meets its contract ends. -/
theorem FairRun.finishes (hrun : FairRun C.device tr)
    (hanswers : ∀ I ready, C.answers I ready → AnswersIn tr I ready)
    (hmeets : Meets C post (tr 0).1 (tr 0).2) : ∃ n a, (tr n).1 = done a := by
  have hall := hrun.meets hmeets
  -- each step of the program leaves a part of it, for which the induction is on its structure
  have hfrom : ∀ p : DeviceProgram σ α, ∀ n, (tr n).1 = p → ∃ m a, (tr m).1 = done a := by
    intro p
    induction p with
    | done a => exact fun n hn => ⟨n, a, hn⟩
    | access effect next ih =>
      intro n hn
      obtain ⟨m, s, d, -, hd, hstep⟩ := hrun.first_move
        (hrun.moves hanswers (hall n) fun a ha => by rw [hn] at ha; cases ha)
      rw [hn] at hstep
      cases hstep with
      | access => exact ih s (m + 1) (by rw [hd])
    | await ready next ih =>
      intro n hn
      obtain ⟨m, s, d, -, hd, hstep⟩ := hrun.first_move
        (hrun.moves hanswers (hall n) fun a ha => by rw [hn] at ha; cases ha)
      rw [hn] at hstep
      cases hstep with
      | await => exact ih (m + 1) (by rw [hd])
  exact hfrom _ 0 rfl

/-! A run in which the program goes on when it can, and in which the device acts for it when it
waits. -/

variable {device : σ → σ → Prop} {answer : σ → σ}

def eager (answer : σ → σ) : DeviceProgram σ α × σ → DeviceProgram σ α × σ
  | (done a, s) => (done a, answer s)
  | (access effect next, s) => (next s, effect s)
  | (await ready next, s) => if ready s then (next, s) else (await ready next, answer s)

def eagerRun (answer : σ → σ) (c : DeviceProgram σ α × σ) : ℕ → DeviceProgram σ α × σ
  | 0 => c
  | n + 1 => eager answer (eagerRun answer c n)

theorem eager_programStep {c d : DeviceProgram σ α × σ} (h : ProgramStep c d) :
    eager answer c = d := by
  cases h with
  | access => rfl
  | await hready => exact if_pos hready

theorem eager_step (hanswer : ∀ s, device s (answer s)) (c : DeviceProgram σ α × σ) :
    Step device c (eager answer c) := by
  obtain ⟨p, s⟩ := c
  cases p with
  | done a => exact .device (hanswer s)
  | access effect next => exact .program .access
  | await ready next =>
    by_cases hready : ready s = true
    · rw [eager, if_pos hready]
      exact .program (.await hready)
    · rw [eager, if_neg hready]
      exact .device (hanswer s)

theorem eagerRun_fair (hanswer : ∀ s, device s (answer s)) (c : DeviceProgram σ α × σ) :
    FairRun device (eagerRun answer c) where
  step n := eager_step hanswer (eagerRun answer c n)
  fair n h := by
    obtain ⟨d, hd⟩ := h n le_rfl
    refine ⟨n, le_rfl, ?_⟩
    rw [eagerRun, eager_programStep hd]
    exact hd

theorem eagerRun_reachable (hanswer : ∀ s, device s (answer s)) (init : σ → Prop) {s : σ}
    (hs : init s) (p : DeviceProgram σ α) (n : ℕ) :
    (system device p init).Reachable (eagerRun answer (p, s) n) := by
  induction n with
  | zero => exact .start ⟨rfl, hs⟩
  | succ n ih => exact .next ih (eager_step hanswer _)

/-- When the program has ended and the device rests, nothing happens any more. -/
theorem eagerRun_done {c : DeviceProgram σ α × σ} {n : ℕ} {a : α}
    (hdone : (eagerRun id c n).1 = done a) {m : ℕ} (hnm : n ≤ m) :
    eagerRun id c m = eagerRun id c n := by
  induction m, hnm using Nat.le_induction with
  | base => rfl
  | succ m _ ih =>
    rw [eagerRun, ih]
    generalize eagerRun id c n = d at hdone
    obtain ⟨p, s⟩ := d
    dsimp only at hdone
    rw [hdone]
    rfl

/-- An answer that makes a wait ready answers it in the run. -/
theorem answersIn_eagerRun {I : σ → Prop} {ready : σ → Bool}
    (hready : ∀ s, I s → ready (answer s) = true) (c : DeviceProgram σ α × σ) :
    AnswersIn (eagerRun answer c) I ready := by
  intro n hwaits
  refine ⟨n + 1, by omega, fun k hk => ?_⟩
  obtain ⟨j, rfl⟩ : ∃ j, k = j + 1 := ⟨k - 1, by omega⟩
  obtain ⟨⟨next, hnext⟩, hI⟩ := hwaits j (by omega)
  have hj : eagerRun answer c j = (await ready next, (eagerRun answer c j).2) := Prod.ext hnext rfl
  rw [eagerRun, hj, eager]
  by_cases h : ready (eagerRun answer c j).2 = true
  · rw [if_pos h]
    exact h
  · rw [if_neg h]
    exact hready _ hI

end Termination

-- a program is opened by the rules only
attribute [irreducible] Meets

end DeviceProgram
