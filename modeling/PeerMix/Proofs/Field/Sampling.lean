import PeerMix.Field.Sampling

/-!
# What drawing gives

Rejection leaves nothing but elements of the field, and a keystream never
refuses, so as many elements are drawn as are asked for.
-/

namespace PeerMix
namespace Field

/-- Only elements of the field pass. -/
theorem contains_of_sample {σ : Type} {draw : Draw σ} {attempts : Nat} {s s' : σ} {x : Nat}
    (h : sample draw attempts s = (.ok x, s')) : contains x = true := by
  induction attempts generalizing s with
  | zero => cases h
  | succ attempts ih =>
      rw [sample] at h
      rcases hdraw : draw width s with ⟨block | block, next⟩
      · rw [hdraw] at h
        cases h
      · rw [hdraw] at h
        dsimp only at h
        by_cases hcontains : contains (candidate block) = true
        · rw [if_pos hcontains] at h
          cases h
          exact hcontains
        · rw [if_neg hcontains] at h
          exact ih h

theorem sampleReader_lt (r : Reader) : (sampleReader r).1 < prime := by
  rw [sampleReader]
  rcases hsample : sample Draw.reader keystreamBlocks r with ⟨reason | x, rest⟩
  · exact (by decide : 0 < prime)
  · exact of_decide_eq_true (contains_of_sample hsample)

theorem length_sampleMany (count : Nat) (r : Reader) : (sampleMany count r).length = count := by
  induction count generalizing r with
  | zero => rfl
  | succ count ih => rw [sampleMany, List.length_cons, ih]

theorem lt_of_mem_sampleMany {count : Nat} {r : Reader} {x : Nat} (h : x ∈ sampleMany count r) :
    x < prime := by
  induction count generalizing r with
  | zero => cases h
  | succ count ih =>
      rw [sampleMany] at h
      rcases List.mem_cons.mp h with rfl | h
      · exact sampleReader_lt r
      · exact ih h

end Field
end PeerMix
