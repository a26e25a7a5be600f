import BoostBase.Text.Tokens

namespace BoostBase.DebugUtils

open Text

def groups : List (Char × Char) := [('(', ')'), ('<', '>'), ('[', ']')]

/-- The loop over `groups`. -/
def change (c : Char) : Int :=
  (groups.map fun g => if c = g.1 then 1 else if c = g.2 then -1 else 0).sum

variable {σ : Type}

/-- `tokenizer` at the depth `depth`, with the `token` that begins at `tokenBegin`. -/
def tokenizer (splitter : Char) (visitor : σ → List Char → σ × Bool) :
    Int → List Char → List Char → σ → σ
  | _, token, [], s => if token = [] then s else (visitor s token).1
  | depth, token, c :: v, s =>
    if c = splitter ∧ depth = 0 then
      let (s, goes) := visitor s token
      if goes then tokenizer splitter visitor (depth + change c) [] v s else s
    else tokenizer splitter visitor (depth + change c) (token ++ [c]) v s

/-- The first visitor: an empty token begins with the splitter behind it. -/
def findMethod (classMethod v : List Char) : List Char × Bool :=
  (if v.headD ' ' ≠ '[' then v else classMethod, true)

/-- The second visitor, that trims the arguments. -/
def trimArgs (_ v : List Char) : List Char × Bool := (v, false)

def methodName (prettyFunc : List Char) : List Char :=
  let classMethod := tokenizer ' ' findMethod 0 [] prettyFunc prettyFunc
  tokenizer '(' trimArgs 0 [] classMethod classMethod

variable {splitter : Char}

theorem tokenizer_fold {f : σ → List Char → σ} {visitor : σ → List Char → σ × Bool}
    (goes : ∀ s v, visitor s v = (f s v, true)) (depth : Int) (token v : List Char) (s : σ) :
    tokenizer splitter visitor depth token v s =
      (tokensFrom change splitter depth token v).foldl f s := by
  induction v generalizing depth token s with
  | nil =>
    rw [tokenizer, tokensFrom, goes]
    split <;> rfl
  | cons c v ih =>
    rw [tokenizer, tokensFrom, goes]
    split
    · exact ih _ _ _
    · exact ih _ _ _

theorem tokenizer_first (depth : Int) (token v s : List Char) :
    tokenizer splitter trimArgs depth token v s =
      (tokensFrom change splitter depth token v).headD s := by
  induction v generalizing depth token s with
  | nil =>
    rw [tokenizer, tokensFrom, trimArgs]
    split <;> rfl
  | cons c v ih =>
    rw [tokenizer, tokensFrom, trimArgs]
    split
    · rfl
    · exact ih _ _ _

theorem findMethod_goes (classMethod v : List Char) :
    findMethod classMethod v = ((findMethod classMethod v).1, true) := rfl

theorem fold_skipped {words : List (List Char)} (skipped : ∀ w ∈ words, w.headD ' ' = '[')
    (classMethod : List Char) :
    words.foldl (fun classMethod v => (findMethod classMethod v).1) classMethod = classMethod := by
  induction words generalizing classMethod with
  | nil => rfl
  | cons w words ih =>
    obtain ⟨first, rest⟩ := List.forall_mem_cons.mp skipped
    rw [List.foldl_cons, findMethod, if_neg (fun ne => ne first)]
    exact ih rest classMethod

/-- Of words whose groups are closed in them, the name is the last one that does not begin with a
    bracket, up to the parenthesis of its arguments. -/
theorem methodName_words {before after : List (List Char)} {word name : List Char}
    (whole : ∀ w ∈ before ++ word :: after, Whole change ' ' w) (some : word ≠ [])
    (found : word.headD ' ' ≠ '[') (skipped : ∀ w ∈ after, w.headD ' ' = '[')
    (bare : Whole change '(' name) (named : word = name ∨ ∃ args, word = name ++ '(' :: args) :
    methodName ([' '].intercalate (before ++ word :: after)) = name := by
  have flat : change ' ' = 0 := by decide
  have words : tokens change ' ' ([' '].intercalate (before ++ word :: after)) =
      before ++ word :: after := by
    rcases List.eq_nil_or_concat after with rfl | ⟨init, last, rfl⟩
    · exact tokens_intercalate flat whole some
    · rw [List.concat_eq_append] at whole skipped ⊢
      have filled : last ≠ [] := by
        rintro rfl
        exact absurd (skipped [] (by simp)) (by decide)
      have split : before ++ word :: (init ++ [last]) = (before ++ word :: init) ++ [last] := by simp
      rw [split] at whole ⊢
      exact tokens_intercalate flat whole filled
  have classMethod : tokenizer ' ' findMethod 0 [] ([' '].intercalate (before ++ word :: after))
      ([' '].intercalate (before ++ word :: after)) = word := by
    rw [tokenizer_fold findMethod_goes]
    change (tokens change ' ' _).foldl _ _ = _
    rw [words, List.foldl_append, List.foldl_cons, findMethod, if_pos found]
    exact fold_skipped skipped _
  rw [methodName, classMethod, tokenizer_first]
  change (tokens change '(' word).headD word = name
  rcases named with rfl | ⟨args, rfl⟩
  · rw [tokens_whole bare some]
    rfl
  · rw [tokens_cut bare]
    rfl

/-- With `const` behind its arguments a method is called so. -/
example : methodName "bool Client::connected() const".toList = "const".toList := by decide

theorem methodName_words_template :
    methodName "auto CoroutineSpawn::spawn(Callable&&, Token) [with bool L = false; Token = int]".toList =
      "CoroutineSpawn::spawn".toList :=
  @methodName_words ["auto".toList] ["[with bool L = false; Token = int]".toList]
    "CoroutineSpawn::spawn(Callable&&, Token)".toList _ (by decide) (by decide) (by decide)
    (by decide) (by decide) (.inr ⟨"Callable&&, Token)".toList, by decide⟩)

end BoostBase.DebugUtils
