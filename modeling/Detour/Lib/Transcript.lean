import Detour.Lib.Program

/-! What the operations of a program were answered in one run, what the run came to, and what
every operation needs to have been answered before it. -/

namespace Atomic.Prog

variable {Op : Type} {Ret : Op → Type} {α β : Type}

abbrev Transcript (Op : Type) (Ret : Op → Type) := List ((o : Op) × Ret o)

variable {p : Prog Op Ret α} {f : α → Prog Op Ret β} {l : Transcript Op Ret} {a : α} {b : β}

/-- Whatever the program is answered, it performs an operation only where `J` allows it after
what it has been answered, newest first, and ends where `Q` holds. -/
def Earns (J : Transcript Op Ret → Op → Prop) (Q : α → Transcript Op Ret → Prop) :
    Prog Op Ret α → Transcript Op Ret → Prop
  | .done a, past => Q a past
  | .op o k, past => J past o ∧ ∀ r, (k r).Earns J Q (⟨o, r⟩ :: past)

variable {J : Transcript Op Ret → Op → Prop} {past : Transcript Op Ret}

theorem Earns.mono {Q R : α → Transcript Op Ret → Prop} (h : p.Earns J Q past)
    (hQ : ∀ a past, Q a past → R a past) : p.Earns J R past := by
  induction p generalizing past with
  | done a => exact hQ a past h
  | op o k ih => exact ⟨h.1, fun r => ih r (h.2 r)⟩

end Atomic.Prog

namespace Atomic.Fallible

open Prog

variable {Op : Type} {Ret : Op → Type} {ε α β : Type} {J : Transcript Op Ret → Op → Prop}
  {past : Transcript Op Ret}

end Atomic.Fallible
