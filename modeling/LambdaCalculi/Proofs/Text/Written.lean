/-!
# Words and groups

A text divided by blanks and parentheses is a word, or a group of such texts between parentheses. No
word holds a blank or a parenthesis, so a word goes on up to the next of these and a group up to the
parenthesis that closes it. The text therefore has one division only.
-/

set_option autoImplicit false

namespace LambdaCalculi.Text

def isDivider (char : Char) : Bool :=
  char == ' ' || char == '(' || char == ')'

def Undivided (text : String) : Prop :=
  ∀ char ∈ text.toList, isDivider char = false

instance : DecidablePred Undivided := fun text =>
  List.decidableBAll _ text.toList

/-- A word, or a group in parentheses with at least one member. -/
inductive Written where
  | word (text : String)
  | group (first : Written) (rest : List Written)
deriving Repr

namespace Written

mutual

def text : Written → List Char
  | word text => text.toList
  | group first rest => '(' :: (first.text ++ textRest rest)

/-- The members of a group after the first one, and the parenthesis that closes it. -/
def textRest : List Written → List Char
  | [] => [')']
  | member :: rest => ' ' :: (member.text ++ textRest rest)

end

mutual

def Proper : Written → Prop
  | word text => text ≠ "" ∧ Undivided text
  | group first rest => first.Proper ∧ ProperRest rest

def ProperRest : List Written → Prop
  | [] => True
  | member :: rest => member.Proper ∧ ProperRest rest

end

/-! ## Words -/

/-- No word goes on in these characters. -/
def Stops : List Char → Prop
  | [] => True
  | char :: _ => isDivider char = true

theorem stops_textRest_append (rest : List Written) (chars : List Char) :
    Stops (textRest rest ++ chars) := by
  cases rest <;> rfl

theorem takeWhile_undivided {word chars : List Char}
    (undivided : ∀ char ∈ word, isDivider char = false) (stops : Stops chars) :
    (word ++ chars).takeWhile (fun char => !isDivider char) = word := by
  rw [List.takeWhile_append_of_pos (by simpa using undivided)]
  cases chars with
  | nil => simp
  | cons char rest =>
      have divider : isDivider char = true := stops
      simp [divider]

theorem word_append_inj {word word' : String} {chars chars' : List Char}
    (undivided : Undivided word) (undivided' : Undivided word') (stops : Stops chars)
    (stops' : Stops chars') (same : word.toList ++ chars = word'.toList ++ chars') :
    word = word' ∧ chars = chars' := by
  have sameWord : word.toList = word'.toList := by
    rw [← takeWhile_undivided undivided stops, same, takeWhile_undivided undivided' stops']
  rw [sameWord] at same
  exact ⟨String.toList_inj.mp sameWord, List.append_cancel_left same⟩

theorem word_append_ne_group {word : String} (proper : (Written.word word).Proper)
    (chars inside : List Char) : word.toList ++ chars ≠ '(' :: inside := by
  obtain ⟨nonempty, undivided⟩ := proper
  intro same
  cases spelled : word.toList with
  | nil => exact nonempty (String.toList_eq_nil_iff.mp spelled)
  | cons char rest =>
      rw [spelled, List.cons_append, List.cons.injEq] at same
      have parenthesis : isDivider '(' = false :=
        undivided '(' (spelled ▸ same.1 ▸ List.mem_cons_self)
      exact absurd parenthesis (by decide)

/-! ## Groups -/

mutual

/-- Where a word cannot go on, the characters of a division determine it. -/
theorem text_append_inj : (first second : Written) → first.Proper → second.Proper →
    ∀ {chars chars' : List Char}, Stops chars → Stops chars' →
      first.text ++ chars = second.text ++ chars' → first = second ∧ chars = chars'
  | word text, word text', proper, proper', chars, chars', stops, stops', same => by
      obtain ⟨rfl, sameRest⟩ := word_append_inj proper.2 proper'.2 stops stops' same
      exact ⟨rfl, sameRest⟩
  | word text, group _ _, proper, _, chars, _, _, _, same =>
      absurd same (word_append_ne_group proper chars _)
  | group _ _, word text, _, proper', _, chars', _, _, same =>
      absurd same.symm (word_append_ne_group proper' chars' _)
  | group first rest, group first' rest', proper, proper', chars, chars', _, _, same => by
      simp only [text, List.cons_append, List.append_assoc, List.cons.injEq, true_and] at same
      obtain ⟨rfl, sameRest⟩ := text_append_inj first first' proper.1 proper'.1
        (stops_textRest_append rest chars) (stops_textRest_append rest' chars') same
      obtain ⟨rfl, sameChars⟩ := textRest_append_inj rest rest' proper.2 proper'.2 sameRest
      exact ⟨rfl, sameChars⟩

/-- What follows a group cannot be taken for a part of it. -/
theorem textRest_append_inj : (rest rest' : List Written) → ProperRest rest → ProperRest rest' →
    ∀ {chars chars' : List Char}, textRest rest ++ chars = textRest rest' ++ chars' →
      rest = rest' ∧ chars = chars'
  | [], [], _, _, _, _, same => ⟨rfl, List.append_cancel_left same⟩
  | [], _ :: _, _, _, _, _, same => by
      simp [textRest] at same
  | _ :: _, [], _, _, _, _, same => by
      simp [textRest] at same
  | member :: rest, member' :: rest', proper, proper', chars, chars', same => by
      simp only [textRest, List.cons_append, List.append_assoc, List.cons.injEq, true_and] at same
      obtain ⟨rfl, sameRest⟩ := text_append_inj member member' proper.1 proper'.1
        (stops_textRest_append rest chars) (stops_textRest_append rest' chars') same
      obtain ⟨rfl, sameChars⟩ := textRest_append_inj rest rest' proper.2 proper'.2 sameRest
      exact ⟨rfl, sameChars⟩

end

theorem text_inj {first second : Written} (proper : first.Proper) (proper' : second.Proper)
    (same : first.text = second.text) : first = second := by
  have ended : Stops [] := True.intro
  have padded : first.text ++ [] = second.text ++ [] := congrArg (· ++ []) same
  exact (text_append_inj first second proper proper' ended ended padded).1

end Written

end LambdaCalculi.Text
