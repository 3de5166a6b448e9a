import BinomialLogit.Text.Blank
import Mathlib.Data.List.TakeWhile

/-! Runs of characters at the start of a text, and what trimming leaves: the one part of a text
that no white space begins or ends and that nothing but white space surrounds. -/

namespace BinomialLogit.Text
set_option autoImplicit false

def StartsWith (p : Char → Bool) (text : List Char) : Prop := ∃ c, text.head? = some c ∧ p c = true

section Runs
variable {p : Char → Bool} {c : Char} {text run rest : List Char}

@[simp] theorem not_startsWith_nil : ¬StartsWith p [] := by simp [StartsWith]

@[simp] theorem startsWith_cons : StartsWith p (c :: text) ↔ p c = true := by simp [StartsWith]

theorem startsWith_append (h : run ≠ []) : StartsWith p (run ++ rest) ↔ StartsWith p run := by
  cases run with
  | nil => exact absurd rfl h
  | cons c run => simp

theorem not_startsWith_dropWhile : ¬StartsWith p (text.dropWhile p) := by
  induction text with
  | nil => simp
  | cons c text ih =>
    cases hc : p c with
    | false => simp [hc]
    | true => simpa [hc] using ih

theorem dropWhile_eq_self (h : ¬StartsWith p text) : text.dropWhile p = text := by
  cases text with
  | nil => rfl
  | cons c text => exact List.dropWhile_cons_of_neg (by simpa using h)

theorem split_run (hrun : ∀ c ∈ run, p c = true) (hrest : ¬StartsWith p rest) :
    (run ++ rest).takeWhile p = run ∧ (run ++ rest).dropWhile p = rest := by
  rw [List.takeWhile_append_of_pos hrun, List.dropWhile_append_of_pos hrun,
    dropWhile_eq_self hrest]
  refine ⟨?_, rfl⟩
  cases rest with
  | nil => simp
  | cons c rest =>
    rw [List.takeWhile_cons_of_neg (by simpa using hrest), List.append_nil]

end Runs

section Words
variable {word word' front front' rest rest' : List Char}

/-- The first word of a text ends at the first space. -/
theorem word_append_inj (hword : ' ' ∉ word) (hword' : ' ' ∉ word')
    (h : word ++ ' ' :: rest = word' ++ ' ' :: rest') : word = word' ∧ rest = rest' := by
  have hends : ∀ {w : List Char}, ' ' ∉ w → ∀ c ∈ w, decide (c ≠ ' ') = true := by
    intro w hw c hc
    refine decide_eq_true fun hspace => hw ?_
    rwa [← hspace]
  have hstop : ∀ r : List Char, ¬StartsWith (fun c => decide (c ≠ ' ')) (' ' :: r) := by simp
  have hfirst := split_run (hends hword) (hstop rest)
  have hfirst' := split_run (hends hword') (hstop rest')
  rw [h] at hfirst
  refine ⟨hfirst.1.symm.trans hfirst'.1, ?_⟩
  have hrest : ' ' :: rest = ' ' :: rest' := hfirst.2.symm.trans hfirst'.2
  exact (List.cons.inj hrest).2

/-- The last word of a text begins after the last space. -/
theorem append_word_inj (hword : ' ' ∉ word) (hword' : ' ' ∉ word')
    (h : front ++ ' ' :: word = front' ++ ' ' :: word') : front = front' ∧ word = word' := by
  have hreverse := congrArg List.reverse h
  simp only [List.reverse_append, List.reverse_cons, List.append_assoc, List.singleton_append]
    at hreverse
  rw [← List.mem_reverse] at hword hword'
  obtain ⟨hlast, hbefore⟩ := word_append_inj hword hword' hreverse
  exact ⟨List.reverse_inj.mp hbefore, List.reverse_inj.mp hlast⟩

end Words

def AllBlank (text : List Char) : Prop := ∀ c ∈ text, IsBlank c

def blank (c : Char) : Bool := decide (IsBlank c)

structure Stripped (text core : List Char) : Prop where
  around : ∃ before after, AllBlank before ∧ AllBlank after ∧ text = before ++ core ++ after
  first : ¬StartsWith blank core
  last : ¬StartsWith blank core.reverse

section Blanks
variable {text core before after : List Char}

theorem trim_eq : trim text = ((text.dropWhile blank).reverse.dropWhile blank).reverse := rfl

theorem allBlank_iff : AllBlank text ↔ ∀ c ∈ text, blank c = true := by
  simp [AllBlank, blank]

theorem AllBlank.append (hbefore : AllBlank before) (hafter : AllBlank after) :
    AllBlank (before ++ after) := by
  intro c hc
  rcases List.mem_append.mp hc with hc | hc
  · exact hbefore c hc
  · exact hafter c hc

theorem AllBlank.reverse (h : AllBlank text) : AllBlank text.reverse := by
  intro c hc
  exact h c (List.mem_reverse.mp hc)

theorem allBlank_takeWhile : AllBlank (text.takeWhile blank) :=
  allBlank_iff.mpr fun _ hc => List.mem_takeWhile_imp hc

theorem stripped_trim (text : List Char) : Stripped text (trim text) := by
  have hfront : text.takeWhile blank ++ text.dropWhile blank = text :=
    List.takeWhile_append_dropWhile
  have hrest : ¬StartsWith blank (text.dropWhile blank) := not_startsWith_dropWhile
  have hbefore : AllBlank (text.takeWhile blank) := allBlank_takeWhile
  rw [trim_eq]
  generalize text.dropWhile blank = rest at hfront hrest ⊢
  have hback : rest.reverse.takeWhile blank ++ rest.reverse.dropWhile blank = rest.reverse :=
    List.takeWhile_append_dropWhile
  have hlast : ¬StartsWith blank (rest.reverse.dropWhile blank) := not_startsWith_dropWhile
  have hafter : AllBlank (rest.reverse.takeWhile blank) := allBlank_takeWhile
  generalize rest.reverse.dropWhile blank = core at hback hlast ⊢
  generalize rest.reverse.takeWhile blank = after at hback hafter
  obtain rfl : core.reverse ++ after.reverse = rest := by
    rw [← List.reverse_append, hback, List.reverse_reverse]
  constructor
  case around =>
    refine ⟨_, after.reverse, hbefore, hafter.reverse, ?_⟩
    rw [List.append_assoc, hfront]
  case first =>
    by_cases hcore : core.reverse = []
    · simp [hcore]
    · rwa [startsWith_append hcore] at hrest
  case last => rwa [List.reverse_reverse]

/-- There is only one way to take white space off both ends. -/
theorem Stripped.trim_eq (h : Stripped text core) : trim text = core := by
  obtain ⟨⟨before, after, hbefore, hafter, rfl⟩, hfirst, hlast⟩ := h
  have hfront : (before ++ core ++ after).dropWhile blank = (core ++ after).dropWhile blank := by
    rw [List.append_assoc, List.dropWhile_append_of_pos (allBlank_iff.mp hbefore)]
  rw [Text.trim_eq, hfront]
  by_cases hcore : core = []
  · subst hcore
    have hnone : after.dropWhile blank = [] :=
      List.dropWhile_eq_nil_iff.mpr (allBlank_iff.mp hafter)
    simp [hnone]
  · have hkept : (core ++ after).dropWhile blank = core ++ after := by
      apply dropWhile_eq_self
      rwa [startsWith_append hcore]
    rw [hkept, List.reverse_append,
      List.dropWhile_append_of_pos (allBlank_iff.mp hafter.reverse), dropWhile_eq_self hlast,
      List.reverse_reverse]

theorem trim_eq_iff : trim text = core ↔ Stripped text core := by
  constructor
  · intro h
    subst h
    exact stripped_trim text
  · intro h
    exact h.trim_eq

theorem trim_padded (hbefore : AllBlank before) (hafter : AllBlank after) :
    trim (before ++ text ++ after) = trim text := by
  obtain ⟨⟨front, back, hfront, hback, htext⟩, hfirst, hlast⟩ := stripped_trim text
  have hwhole : before ++ text ++ after = before ++ (front ++ trim text ++ back) ++ after := by
    rw [← htext]
  apply Stripped.trim_eq
  refine ⟨⟨before ++ front, back ++ after, hbefore.append hfront, hback.append hafter, ?_⟩,
    hfirst, hlast⟩
  rw [hwhole]
  simp only [List.append_assoc]

theorem Stripped.self (h : Stripped text core) : Stripped core core :=
  ⟨⟨[], [], nofun, nofun, by simp⟩, h.first, h.last⟩

end Blanks

end BinomialLogit.Text
