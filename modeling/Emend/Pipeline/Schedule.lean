/-! # Orders of visits

What is visited in parallel is visited in some order, and what comes of it is put back in the order it was given in.
-/

namespace Emend

/-- Where one of a list comes among so many that stand behind it. -/
structure Schedule where
  place : Nat → Nat
  place_le : ∀ behind, place behind ≤ behind

namespace Schedule

variable {α : Type}

def inOrder : Schedule := ⟨fun _ => 0, Nat.zero_le⟩

def arrange (σ : Schedule) : List α → List α
  | [] => []
  | a :: as => (σ.arrange as).insertIdx (σ.place as.length) a

/-- Takes so many that were arranged back to where they stood. -/
def restore (σ : Schedule) : Nat → List α → List α
  | 0, _ => []
  | n + 1, as => as[σ.place n]?.toList ++ σ.restore n (as.eraseIdx (σ.place n))

end Schedule
end Emend
