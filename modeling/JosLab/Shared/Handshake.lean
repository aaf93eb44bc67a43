import JosLab.Shared.Safety

set_option autoImplicit false

namespace Handshake

variable {ε δ : Type} (poll : δ → Bool × δ) (delay : δ → δ)

inductive ReadyAfter : Nat → δ → δ → Prop where
  | now {d d' : δ} (ready : poll d = (true, d')) : ReadyAfter 0 d d'
  | later {polls : Nat} {d next d' : δ} (busy : poll d = (false, next))
      (rest : ReadyAfter polls (delay next) d') : ReadyAfter (polls + 1) d d'

-- while (!ready) delay();
def waitPass (d : δ) : Outcome ε (Pass δ δ) :=
  let (ready, d) := poll d
  if ready then .done (.leave d) else .done (.again (delay d))

-- for (i = 0; !ready && i < bound; i++) delay();
def waitUpTo : Nat → δ → Bool × δ
  | 0, d => poll d
  | bound + 1, d =>
      let (ready, d) := poll d
      if ready then (true, d) else waitUpTo bound (delay d)

variable {poll delay}

theorem ReadyAfter.wait {polls : Nat} {d d' : δ} (after : ReadyAfter poll delay polls d d')
    (fuel : Nat) (enough : polls < fuel) :
    (Loop.run (waitPass poll delay) fuel d : Outcome ε δ) = .done d' := by
  induction after generalizing fuel with
  | now ready =>
    obtain ⟨fuel, rfl⟩ := Loop.one_more enough
    exact Loop.run_leave fuel (by simp [waitPass, ready])
  | later busy rest ih =>
    obtain ⟨fuel, rfl⟩ := Loop.one_more enough
    rw [Loop.run_again fuel (by simp [waitPass, busy]; rfl)]
    exact ih fuel (by omega)

theorem ReadyAfter.waitUpTo {polls : Nat} {d d' : δ} (after : ReadyAfter poll delay polls d d')
    (bound : Nat) (enough : polls ≤ bound) : waitUpTo poll delay bound d = (true, d') := by
  induction after generalizing bound with
  | now ready => cases bound <;> simp [Handshake.waitUpTo, ready]
  | later busy rest ih =>
    obtain ⟨bound, rfl⟩ := Loop.one_more (Nat.lt_of_succ_le enough)
    simpa [Handshake.waitUpTo, busy] using ih bound (by omega)

end Handshake
