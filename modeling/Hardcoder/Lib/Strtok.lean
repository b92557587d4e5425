import Mathlib.Data.List.TakeWhile

/-! `strtok_r` with one delimiter, and the tokens that a loop over it sees. -/

namespace Strtok
set_option autoImplicit false

universe u
variable {α : Type u} [DecidableEq α] (delim : α)

/-- The next token, and what is left behind the delimiter that ended it. -/
def strtok_r (s : List α) : Option (List α × List α) :=
  match s.dropWhile (· = delim) with
  | [] => none
  | c :: s => some ((c :: s).takeWhile (· ≠ delim), ((c :: s).dropWhile (· ≠ delim)).tail)

/-- `while ((token = strtok_r(saveptr, delim, &saveptr)) != NULL)`; `fuel` is above the length. -/
def tokensOf : Nat → List α → List (List α)
  | 0, _ => []
  | fuel + 1, s =>
    match strtok_r delim s with
    | none => []
    | some (token, rest) => token :: tokensOf fuel rest

def tokens (s : List α) : List (List α) := tokensOf delim (s.length + 1) s

variable {delim}

theorem length_rest {s token rest : List α} (h : strtok_r delim s = some (token, rest)) :
    rest.length < s.length := by
  unfold strtok_r at h
  split at h
  · cases h
  · rename_i c s' hdrop
    obtain rfl := (Prod.mk.inj (Option.some.inj h)).2
    have hs : (c :: s').length ≤ s.length := by
      rw [← hdrop]
      exact (List.dropWhile_suffix _).length_le
    have hrest := (List.dropWhile_suffix (l := c :: s') fun c => decide (c ≠ delim)).length_le
    rw [List.length_tail]
    rw [List.length_cons] at hs hrest
    omega

/-- Any fuel above the length will do. -/
theorem tokensOf_eq {fuel fuel' : Nat} {s : List α} (h : s.length < fuel) (h' : s.length < fuel') :
    tokensOf delim fuel s = tokensOf delim fuel' s := by
  induction fuel generalizing fuel' s with
  | zero => exact absurd h (Nat.not_lt_zero _)
  | succ fuel ih =>
    obtain ⟨fuel', rfl⟩ : ∃ k, fuel' = k + 1 := ⟨fuel' - 1, by omega⟩
    unfold tokensOf
    split
    · rfl
    · rename_i token rest hnext
      have hlt := length_rest hnext
      exact congrArg (token :: ·) (ih (by omega) (by omega))

theorem tokens_of_some {s token rest : List α} (h : strtok_r delim s = some (token, rest)) :
    tokens delim s = token :: tokens delim rest := by
  have hlt := length_rest h
  rw [tokens, tokensOf, h, tokens]
  dsimp only
  rw [tokensOf_eq hlt (Nat.lt_succ_self _)]

section Word
variable {word : List α}

/-- Delimiters, a word, and a delimiter behind it. -/
theorem strtok_r_word (k : Nat) (hne : word ≠ []) (hword : delim ∉ word) (rest : List α) :
    strtok_r delim (List.replicate k delim ++ (word ++ delim :: rest)) = some (word, rest) := by
  obtain ⟨c, cs, rfl⟩ := List.exists_cons_of_ne_nil hne
  have hc : c ≠ delim := fun h => hword (h ▸ List.mem_cons_self)
  have hdrop : (List.replicate k delim ++ (c :: cs ++ delim :: rest)).dropWhile (· = delim) =
      c :: (cs ++ delim :: rest) := by
    rw [List.dropWhile_append_of_pos fun d hd => decide_eq_true (List.eq_of_mem_replicate hd),
      List.cons_append, List.dropWhile_cons_of_neg (by simpa using hc)]
  have hall : ∀ d ∈ c :: cs, decide (d ≠ delim) = true :=
    fun d hd => decide_eq_true fun h => hword (h ▸ hd)
  have htake : (c :: (cs ++ delim :: rest)).takeWhile (· ≠ delim) = c :: cs := by
    rw [← List.cons_append, List.takeWhile_append_of_pos hall, List.takeWhile_cons_of_neg (by simp),
      List.append_nil]
  have hrest : (c :: (cs ++ delim :: rest)).dropWhile (· ≠ delim) = delim :: rest := by
    rw [← List.cons_append, List.dropWhile_append_of_pos hall, List.dropWhile_cons_of_neg (by simp)]
  rw [strtok_r, hdrop]
  dsimp only
  rw [htake, hrest, List.tail_cons]

theorem tokens_word (k : Nat) (hne : word ≠ []) (hword : delim ∉ word) (rest : List α) :
    tokens delim (List.replicate k delim ++ (word ++ delim :: rest)) = word :: tokens delim rest :=
  tokens_of_some (strtok_r_word k hne hword rest)

/-- A word that the text ends with. -/
theorem tokens_last (hne : word ≠ []) (hword : delim ∉ word) : tokens delim word = [word] := by
  have hall : ∀ d ∈ word, decide (d ≠ delim) = true := fun d hd => decide_eq_true fun h => hword (h ▸ hd)
  obtain ⟨c, cs, rfl⟩ := List.exists_cons_of_ne_nil hne
  have hc : c ≠ delim := fun h => hword (h ▸ List.mem_cons_self)
  have hnext : strtok_r delim (c :: cs) = some (c :: cs, []) := by
    rw [strtok_r, List.dropWhile_cons_of_neg (by simpa using hc)]
    dsimp only
    rw [List.takeWhile_eq_self_iff.mpr hall, List.dropWhile_eq_nil_iff.mpr hall]
    rfl
  rw [tokens_of_some hnext]
  rfl

end Word

end Strtok
