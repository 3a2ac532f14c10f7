import Mathlib.Data.List.Nodup

/-! A counter that many add to, and who has. -/

namespace Atomic

variable {ι : Type}

structure Tally (ι : Type) where
  value : UInt64
  who : List ι

namespace Tally

def zero : Tally ι := ⟨0, []⟩

def add (x : Tally ι) (i : ι) : Tally ι := ⟨x.value + 1, x.who ++ [i]⟩

structure Exact (x : Tally ι) : Prop where
  value : x.value = UInt64.ofNat x.who.length
  once : x.who.Nodup

variable {x : Tally ι} {i j : ι}

theorem exact_zero : (zero : Tally ι).Exact := ⟨rfl, List.nodup_nil⟩

theorem Exact.add (h : x.Exact) (hi : i ∉ x.who) : (x.add i).Exact where
  value := by
    rw [Tally.add, h.value, List.length_append, List.length_singleton, UInt64.ofNat_add]
    rfl
  once := by
    rw [Tally.add, List.nodup_append]
    refine ⟨h.once, List.nodup_singleton i, ?_⟩
    intro a ha b hb
    obtain rfl := List.mem_singleton.mp hb
    rintro rfl
    exact hi ha

theorem mem_add_self : i ∈ (x.add i).who := List.mem_append_right _ (List.mem_singleton.mpr rfl)

theorem mem_add_of_ne (h : j ≠ i) : j ∈ (x.add i).who ↔ j ∈ x.who := by
  rw [add, List.mem_append, List.mem_singleton]
  exact or_iff_left h

theorem prefix_add : x.who <+: (x.add i).who := List.prefix_append _ _

end Tally

end Atomic
