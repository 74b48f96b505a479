import TapeMachine.Text.Basic

/-! How alike two texts are. They share their longest common run and, on either side of it,
what the remaining pieces share in the same way. A name is close to another if what they share
makes up three fifths of both. -/
namespace TapeMachine.Similarity

def commonPrefix : Text → Text → Nat
  | a :: as, b :: bs => if a = b then commonPrefix as bs + 1 else 0
  | _, _ => 0

structure CommonRun where
  first : Nat
  second : Nat
  size : Nat
  deriving Repr, DecidableEq

def runs (a b : Text) : List CommonRun :=
  (List.range a.length).flatMap fun i =>
    (List.range b.length).map fun j => ⟨i, j, commonPrefix (a.drop i) (b.drop j)⟩

def longer (r s : CommonRun) : CommonRun := if r.size < s.size then s else r

def longest (a b : Text) : CommonRun := (runs a b).foldl longer ⟨0, 0, 0⟩

theorem commonPrefix_le (a b : Text) : commonPrefix a b ≤ a.length := by
  induction a generalizing b with
  | nil => simp [commonPrefix]
  | cons x as ih =>
    cases b with
    | nil => simp [commonPrefix]
    | cons y bs =>
      have := ih bs
      unfold commonPrefix
      split
      · simpa using this
      · exact Nat.zero_le _

theorem foldl_longer_mem (r : CommonRun) (rs : List CommonRun) :
    rs.foldl longer r ∈ r :: rs := by
  induction rs generalizing r with
  | nil => simp
  | cons s rs ih =>
    have tail := ih (longer r s)
    have head : longer r s = r ∨ longer r s = s := by
      unfold longer
      split <;> simp
    simp only [List.foldl_cons, List.mem_cons] at tail ⊢
    rcases tail with eq | mem
    · rw [eq]
      exact head.imp id .inl
    · exact .inr (.inr mem)

theorem longest_le (a b : Text) : (longest a b).first + (longest a b).size ≤ a.length := by
  have mem := foldl_longer_mem ⟨0, 0, 0⟩ (runs a b)
  change longest a b ∈ _ at mem
  rcases List.mem_cons.mp mem with eq | mem
  · simp [eq]
  · simp only [runs, List.mem_flatMap, List.mem_range, List.mem_map] at mem
    obtain ⟨i, inside, j, _, eq⟩ := mem
    have := commonPrefix_le (a.drop i) (b.drop j)
    rw [List.length_drop] at this
    rw [← eq]
    simp only
    omega

def shared (a b : Text) : Nat :=
  let run := longest a b
  if run.size = 0 then 0
  else
    shared (a.take run.first) (b.take run.second) + run.size +
      shared (a.drop (run.first + run.size)) (b.drop (run.second + run.size))
termination_by a.length
decreasing_by
  all_goals
    have inside := longest_le a b
    have nonempty : (longest a b).size ≠ 0 := by assumption
    simp only [List.length_take, List.length_drop]
    omega

def close (name other : Text) : Bool :=
  3 * (name.length + other.length) ≤ 10 * shared name other

/-- `a` is at least as much like `word` as `b` is; of two equally like ones the later in the
alphabet comes first. -/
def atLeast (word a b : Text) : Bool :=
  let left := shared a word * (b.length + word.length)
  let right := shared b word * (a.length + word.length)
  right < left || (left == right && b.notAfter a)

def closest (word : Text) (names : List Text) : List Text :=
  ((names.filter (close · word)).mergeSort (atLeast word)).take 3

end TapeMachine.Similarity
