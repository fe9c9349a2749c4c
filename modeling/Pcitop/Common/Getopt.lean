import Pcitop.Common.CString

/-!
# `getopt_long`

The function as a program calls it in a loop, for option strings without `::` and
without a leading `:`, `+` or `-`. What a call leaves for the next one is the rest of the
word it is in and the words after it. Words that are no options are passed over, or end
the options when `POSIXLY_CORRECT` is set.

`Reads` says what a command line means, word by word: which options it gives with which
arguments, up to its end or to the first word that is in error.

* `getoptLong_size`: every call makes progress, so that a loop of calls ends.
* `Reads.optionLoop_eq`: a loop of calls goes through what the words say, in order.
* `exists_reads`: every command line has a reading.
* `Reads.fromWords`: the arguments are ends of words of the command line.
-/

namespace Pcitop.Common

/-- An entry of the table of long options (`struct option`). A flag is a variable that is
    set to `val`. -/
structure LongOption (φ : Type) where
  name : CString
  hasArg : Bool
  flag : Option φ
  val : Char
  deriving DecidableEq, Repr

/-- What a program passes in every call. -/
structure Getopt (φ : Type) where
  optstring : CString
  longopts : List (LongOption φ)
  posixlyCorrect : Bool

/-- What a call gives: the character returned, `optarg`, and the flag that is set. -/
structure Found (φ : Type) where
  code : Char
  optarg : Option CString
  flag : Option (φ × Char)
  deriving DecidableEq, Repr

/-- What a call leaves for the next one. -/
structure Scan where
  nextchar : CString
  args : List CString
  deriving DecidableEq, Repr

/-- A word that is no option: it has no `-` in front, or nothing behind it. -/
def isWord : CString → Bool
  | '-' :: _ :: _ => false
  | _ => true

/-- The word that ends the options. -/
def dashes : CString := ['-', '-']

section

variable {φ : Type}

/-- An option in error. -/
def badOption : Found φ := ⟨'?', none, none⟩

/-- A long option that was found. -/
def LongOption.found (o : LongOption φ) (optarg : Option CString) : Found φ :=
  match o.flag with
  | none => ⟨o.val, optarg, none⟩
  | some f => ⟨nul, optarg, some (f, o.val)⟩

namespace Getopt

variable (g : Getopt φ)

/-- Whether the option `c` takes an argument, `none` when there is no such option. -/
def shortArg (c : Char) : Option Bool :=
  if c = ':' || c = ';' then none
  else
    match g.optstring.dropWhile (· ≠ c) with
    | [] => none
    | _ :: s => some (s.head? == some ':')

/-- The long option of a name, or the one it abbreviates. -/
def longOption [DecidableEq φ] (name : CString) : Option (LongOption φ) :=
  match g.longopts.find? fun o => o.name = name with
  | some o => some o
  | none =>
    match g.longopts.filter fun o => name.isPrefixOf o.name with
    | [] => none
    | o :: os =>
      if os.all fun p => p.hasArg = o.hasArg ∧ p.flag = o.flag ∧ p.val = o.val then some o
      else none

/-- The option `c` of a word with `rest` behind it. -/
def shortStep (c : Char) (rest : CString) (args : List CString) : Found φ × Scan :=
  match g.shortArg c with
  | none => (badOption, ⟨rest, args⟩)
  | some false => (⟨c, none, none⟩, ⟨rest, args⟩)
  | some true =>
    if rest ≠ [] then (⟨c, some rest, none⟩, ⟨[], args⟩)
    else
      match args with
      | [] => (badOption, ⟨[], []⟩)
      | a :: args => (⟨c, some a, none⟩, ⟨[], args⟩)

/-- The word `--` and `text`. -/
def longStep [DecidableEq φ] (text : CString) (args : List CString) : Found φ × Scan :=
  match g.longOption (text.takeWhile (· ≠ '=')) with
  | none => (badOption, ⟨[], args⟩)
  | some o =>
    match text.dropWhile (· ≠ '=') with
    | _ :: a => if o.hasArg then (o.found (some a), ⟨[], args⟩) else (badOption, ⟨[], args⟩)
    | [] =>
      if o.hasArg then
        match args with
        | [] => (badOption, ⟨[], []⟩)
        | a :: args => (o.found (some a), ⟨[], args⟩)
      else (o.found none, ⟨[], args⟩)

/-- The words from the first one that is looked at. -/
def skipWords (args : List CString) : List CString :=
  if g.posixlyCorrect then args else args.dropWhile isWord

/-- A call of `getopt_long`, `none` when it returns −1. -/
def getoptLong [DecidableEq φ] (s : Scan) : Option (Found φ × Scan) :=
  match s.nextchar with
  | c :: rest => some (g.shortStep c rest s.args)
  | [] =>
    match g.skipWords s.args with
    | [] => none
    | ('-' :: '-' :: text) :: args => if text = [] then none else some (g.longStep text args)
    | ('-' :: c :: rest) :: args => some (g.shortStep c rest args)
    | _ => none

end Getopt

/-! ## Letters -/

namespace Getopt

variable {g : Getopt φ} {c : Char}

theorem shortStep_unknown (h : g.shortArg c = none) (rest : CString) (args : List CString) :
    g.shortStep c rest args = (badOption, ⟨rest, args⟩) := by
  simp only [shortStep, h]

theorem shortStep_flag (h : g.shortArg c = some false) (rest : CString) (args : List CString) :
    g.shortStep c rest args = (⟨c, none, none⟩, ⟨rest, args⟩) := by
  simp only [shortStep, h]

theorem shortStep_attached (h : g.shortArg c = some true) {a : CString} (ha : a ≠ [])
    (args : List CString) : g.shortStep c a args = (⟨c, some a, none⟩, ⟨[], args⟩) := by
  simp only [shortStep, h, if_pos ha]

theorem shortStep_separate (h : g.shortArg c = some true) (a : CString) (args : List CString) :
    g.shortStep c [] (a :: args) = (⟨c, some a, none⟩, ⟨[], args⟩) := by
  simp only [shortStep, h, if_neg (not_not.mpr rfl)]

theorem shortStep_missing (h : g.shortArg c = some true) :
    g.shortStep c [] [] = (badOption, ⟨[], []⟩) := by
  simp only [shortStep, h, if_neg (not_not.mpr rfl)]

end Getopt

/-! ## Progress -/

/-- What is left to look at. -/
def Scan.size (s : Scan) : ℕ := s.nextchar.length + (s.args.map fun a => a.length + 1).sum

@[simp] theorem Scan.size_mk (nextchar : CString) (args : List CString) :
    Scan.size ⟨nextchar, args⟩ = nextchar.length + (args.map fun a => a.length + 1).sum := rfl

namespace Getopt

variable {g : Getopt φ}

theorem shortStep_size (c : Char) (rest : CString) (args : List CString) :
    (g.shortStep c rest args).2.size ≤ Scan.size ⟨rest, args⟩ := by
  unfold shortStep
  split
  · exact le_rfl
  · exact le_rfl
  · split_ifs
    · simp
    · cases args with
      | nil => simp
      | cons a args => simp; omega

theorem longStep_size [DecidableEq φ] (text : CString) (args : List CString) :
    (g.longStep text args).2.size ≤ Scan.size ⟨[], args⟩ := by
  unfold longStep
  split
  · exact le_rfl
  · split
    · split_ifs
      · exact le_rfl
      · exact le_rfl
    · split_ifs
      · cases args with
        | nil => exact le_rfl
        | cons a args => simp
      · exact le_rfl

theorem skipWords_sublist (args : List CString) : (g.skipWords args).Sublist args := by
  unfold skipWords
  split_ifs
  · exact List.Sublist.refl _
  · exact List.dropWhile_sublist _

theorem skipWords_option (c : Char) (cs : CString) (args : List CString) :
    g.skipWords (('-' :: c :: cs) :: args) = ('-' :: c :: cs) :: args := by
  unfold skipWords
  split_ifs
  · rfl
  · exact List.dropWhile_cons_of_neg (by simp [isWord])

/-- A call that returns an option has less left than before. -/
theorem getoptLong_size [DecidableEq φ] {s s' : Scan} {r : Found φ}
    (h : g.getoptLong s = some (r, s')) : s'.size < s.size := by
  obtain ⟨nextchar, args⟩ := s
  unfold getoptLong at h
  cases nextchar with
  | cons c rest =>
    have hstep : g.shortStep c rest args = (r, s') := Option.some.inj h
    have hsize := shortStep_size (g := g) c rest args
    rw [hstep] at hsize
    simp at hsize ⊢
    omega
  | nil =>
    have hskip : ((g.skipWords args).map fun a => a.length + 1).sum ≤
        (args.map fun a => a.length + 1).sum :=
      ((skipWords_sublist args).map _).sum_le_sum fun _ _ => Nat.zero_le _
    simp only at h
    split at h
    · exact absurd h (by simp)
    · rename_i text args' hargs
      split_ifs at h
      have hstep : g.longStep text args' = (r, s') := Option.some.inj h
      have hsize := longStep_size (g := g) text args'
      rw [hstep] at hsize
      simp [hargs] at hsize hskip ⊢
      omega
    · rename_i c rest args' _ hargs
      have hstep : g.shortStep c rest args' = (r, s') := Option.some.inj h
      have hsize := shortStep_size (g := g) c rest args'
      rw [hstep] at hsize
      simp [hargs] at hsize hskip ⊢
      omega
    · exact absurd h (by simp)

end Getopt

/-! ## The loop of a program -/

section Loop

variable {σ ε : Type} [DecidableEq φ] (g : Getopt φ) (f : σ → Found φ → Except ε σ)

/-- `while ((c = getopt_long(…)) != -1)` with the body `f`, which may end the program. -/
def optionLoop (s : Scan) (st : σ) : Except ε σ :=
  match _h : g.getoptLong s with
  | none => .ok st
  | some (r, s') => do
    let st ← f st r
    optionLoop s' st
termination_by s.size
decreasing_by exact Getopt.getoptLong_size _h

theorem optionLoop_none {s : Scan} (h : g.getoptLong s = none) (st : σ) :
    optionLoop g f s st = .ok st := by
  rw [optionLoop]
  split
  · rfl
  · rename_i r s' hs
    rw [h] at hs
    exact absurd hs (by simp)

theorem optionLoop_some {s s' : Scan} {r : Found φ} (h : g.getoptLong s = some (r, s')) (st : σ) :
    optionLoop g f s st = f st r >>= optionLoop g f s' := by
  rw [optionLoop]
  split
  · rename_i hs
    rw [h] at hs
    exact absurd hs (by simp)
  · rename_i r' s'' hs
    obtain ⟨rfl, rfl⟩ : r' = r ∧ s'' = s' := by simpa [h, eq_comm] using hs
    rfl

end Loop

/-! ## What a command line says -/

/-- What the letters `cs` of a word give when the words `args` follow it, and the words
    that are left; none are when a letter is in error. -/
inductive Letters (g : Getopt φ) :
    CString → List CString → List (Found φ) → Option (List CString) → Prop
  | done (args) : Letters g [] args [] (some args)
  | flag {c cs args founds after} (harg : g.shortArg c = some false)
      (h : Letters g cs args founds after) :
      Letters g (c :: cs) args (⟨c, none, none⟩ :: founds) after
  | attached {c a} (args) (harg : g.shortArg c = some true) (hne : a ≠ []) :
      Letters g (c :: a) args [⟨c, some a, none⟩] (some args)
  | separate {c} (a args) (harg : g.shortArg c = some true) :
      Letters g [c] (a :: args) [⟨c, some a, none⟩] (some args)
  | missing {c} (harg : g.shortArg c = some true) : Letters g [c] [] [] none
  | unknown {c} (cs args) (harg : g.shortArg c = none) : Letters g (c :: cs) args [] none

/-- What the word `--` and `text` gives. A name ends at the first `=`. -/
inductive Long [DecidableEq φ] (g : Getopt φ) :
    CString → List CString → List (Found φ) → Option (List CString) → Prop
  | flag {name o} (args) (hname : '=' ∉ name) (ho : g.longOption name = some o)
      (harg : o.hasArg = false) : Long g name args [o.found none] (some args)
  | attached {name o} (a args) (hname : '=' ∉ name) (ho : g.longOption name = some o)
      (harg : o.hasArg = true) : Long g (name ++ '=' :: a) args [o.found (some a)] (some args)
  | separate {name o} (a args) (hname : '=' ∉ name) (ho : g.longOption name = some o)
      (harg : o.hasArg = true) : Long g name (a :: args) [o.found (some a)] (some args)
  | missing {name o} (hname : '=' ∉ name) (ho : g.longOption name = some o)
      (harg : o.hasArg = true) : Long g name [] [] none
  | extra {name o} (a args) (hname : '=' ∉ name) (ho : g.longOption name = some o)
      (harg : o.hasArg = false) : Long g (name ++ '=' :: a) args [] none
  | unknown {text} (args) (ho : g.longOption (text.takeWhile (· ≠ '=')) = none) :
      Long g text args [] none

/-- The options of a command line in order, up to its end or to an error. -/
inductive Reads [DecidableEq φ] (g : Getopt φ) :
    List CString → List (Found φ) → Bool → Prop
  | nil : Reads g [] [] false
  | word {w args founds err} (hp : g.posixlyCorrect = false) (hw : isWord w = true)
      (h : Reads g args founds err) : Reads g (w :: args) founds err
  | stop {w} (args) (hp : g.posixlyCorrect = true) (hw : isWord w = true) :
      Reads g (w :: args) [] false
  | dashes (args) : Reads g (dashes :: args) [] false
  | letters {c cs args args' founds founds' err} (hc : c ≠ '-')
      (hl : Letters g (c :: cs) args founds (some args')) (h : Reads g args' founds' err) :
      Reads g (('-' :: c :: cs) :: args) (founds ++ founds') err
  | badLetters {c cs args founds} (hc : c ≠ '-') (hl : Letters g (c :: cs) args founds none) :
      Reads g (('-' :: c :: cs) :: args) founds true
  | long {text args args' founds founds' err} (hne : text ≠ [])
      (hl : Long g text args founds (some args')) (h : Reads g args' founds' err) :
      Reads g (('-' :: '-' :: text) :: args) (founds ++ founds') err
  | badLong {text args founds} (hne : text ≠ []) (hl : Long g text args founds none) :
      Reads g (('-' :: '-' :: text) :: args) founds true

/-! ## The words of a command line -/

section

variable {g : Getopt φ}

theorem isWord_or (arg : CString) : isWord arg = true ∨ ∃ c cs, arg = '-' :: c :: cs := by
  unfold isWord
  split
  · exact .inr ⟨_, _, rfl⟩
  · exact .inl rfl

theorem Letters.after_sublist {cs : CString} {args args' : List CString}
    {founds : List (Found φ)} (h : Letters g cs args founds (some args')) :
    args'.Sublist args := by
  generalize hafter : some args' = after at h
  induction h with
  | done args => rw [Option.some.inj hafter]
  | flag _ _ ih => exact ih hafter
  | attached args => rw [Option.some.inj hafter]
  | separate a args => exact Option.some.inj hafter ▸ List.sublist_cons_self _ _
  | missing => exact absurd hafter (by simp)
  | unknown => exact absurd hafter (by simp)

theorem exists_letters (g : Getopt φ) (cs : CString) (args : List CString) :
    ∃ founds after, Letters g cs args founds after := by
  induction cs with
  | nil => exact ⟨[], some args, .done args⟩
  | cons c cs ih =>
    match harg : g.shortArg c with
    | none => exact ⟨[], none, .unknown cs args harg⟩
    | some false =>
      obtain ⟨founds, after, hl⟩ := ih
      exact ⟨_, after, .flag harg hl⟩
    | some true =>
      by_cases hcs : cs = []
      · subst hcs
        cases args with
        | nil => exact ⟨[], none, .missing harg⟩
        | cons a args => exact ⟨_, some args, .separate a args harg⟩
      · exact ⟨_, some args, .attached args harg hcs⟩

/-- The arguments of some options are ends of some words. -/
def FromWords (args : List CString) (founds : List (Found φ)) : Prop :=
  ∀ r ∈ founds, ∀ a ∈ r.optarg, ∃ w ∈ args, a <:+ w

theorem FromWords.mono {args args' : List CString} {founds : List (Found φ)}
    (h : FromWords args founds) (hs : args.Sublist args') : FromWords args' founds := by
  intro r hr a ha
  obtain ⟨w, hw, haw⟩ := h r hr a ha
  exact ⟨w, hs.subset hw, haw⟩

theorem FromWords.append {args : List CString} {founds founds' : List (Found φ)}
    (h : FromWords args founds) (h' : FromWords args founds') :
    FromWords args (founds ++ founds') :=
  fun r hr => (List.mem_append.mp hr).elim (h r) (h' r)

theorem LongOption.optarg_found (o : LongOption φ) (optarg : Option CString) :
    (o.found optarg).optarg = optarg := by
  unfold LongOption.found
  cases o.flag <;> rfl

theorem Letters.fromWords {w cs : CString} {args : List CString} {founds : List (Found φ)}
    {after : Option (List CString)} (h : Letters g cs args founds after) (hw : cs <:+ w) :
    FromWords (w :: args) founds := by
  induction h with
  | done | missing | unknown => exact fun r hr => absurd hr List.not_mem_nil
  | flag harg h ih =>
    refine List.forall_mem_cons.mpr ⟨fun a ha => absurd ha (by simp), ih ?_⟩
    exact (List.suffix_cons _ _).trans hw
  | attached args harg hne =>
    refine List.forall_mem_singleton.mpr fun a ha => ?_
    rw [← Option.mem_some.mp ha]
    exact ⟨w, List.mem_cons_self, (List.suffix_cons _ _).trans hw⟩
  | separate a args harg =>
    refine List.forall_mem_singleton.mpr fun a ha => ?_
    rw [← Option.mem_some.mp ha]
    exact ⟨_, List.mem_cons_of_mem _ List.mem_cons_self, List.suffix_rfl⟩

end

/-! ## The calls and the words -/

section

variable {σ ε : Type} {g : Getopt φ} {f : σ → Found φ → Except ε σ}

/-- A program that ends at an option in error. -/
def EndsAtError (f : σ → Found φ → Except ε σ) : Prop :=
  ∀ st, ∃ e, f st badOption = .error e

theorem EndsAtError.bind (hbad : EndsAtError f) (st : σ) (k : σ → Except ε σ) :
    f st badOption >>= k = f st badOption := by
  obtain ⟨e, he⟩ := hbad st
  rw [he]
  rfl

/-- The options of a command line, and the error at its end if there is one. -/
def calls (founds : List (Found φ)) (err : Bool) : List (Found φ) :=
  if err then founds ++ [badOption] else founds

theorem foldlM_calls_append (founds founds' : List (Found φ)) (err : Bool) (st : σ) :
    (calls (founds ++ founds') err).foldlM f st =
      founds.foldlM f st >>= fun st => (calls founds' err).foldlM f st := by
  cases err with
  | false => exact List.foldlM_append
  | true => rw [calls, if_pos rfl, List.append_assoc, List.foldlM_append]; rfl

variable [DecidableEq φ]

theorem optionLoop_congr {s s' : Scan} (h : g.getoptLong s = g.getoptLong s') (st : σ) :
    optionLoop g f s st = optionLoop g f s' st := by
  cases hs : g.getoptLong s' with
  | none => rw [optionLoop_none g f hs, optionLoop_none g f (h.trans hs)]
  | some r => rw [optionLoop_some g f hs, optionLoop_some g f (h.trans hs)]

/-- What is left of the loop after a word. -/
def resume (g : Getopt φ) (f : σ → Found φ → Except ε σ) :
    Option (List CString) → σ → Except ε σ
  | some args, st => optionLoop g f ⟨[], args⟩ st
  | none, st => f st badOption

theorem getoptLong_word (hp : g.posixlyCorrect = false) {w : CString} (hw : isWord w = true)
    (args : List CString) : g.getoptLong ⟨[], w :: args⟩ = g.getoptLong ⟨[], args⟩ := by
  have hskip : g.skipWords (w :: args) = g.skipWords args := by
    simp only [Getopt.skipWords, hp]
    exact List.dropWhile_cons_of_pos hw
  simp only [Getopt.getoptLong, hskip]

theorem getoptLong_stop (hp : g.posixlyCorrect = true) {w : CString} (hw : isWord w = true)
    (args : List CString) : g.getoptLong ⟨[], w :: args⟩ = none := by
  simp only [Getopt.getoptLong, Getopt.skipWords, hp, if_true]
  split
  · rfl
  · rename_i heq
    rw [(List.cons.inj heq).1] at hw
    exact absurd hw (by simp [isWord])
  · rename_i heq
    rw [(List.cons.inj heq).1] at hw
    exact absurd hw (by simp [isWord])
  · rfl

theorem getoptLong_dashes (args : List CString) : g.getoptLong ⟨[], dashes :: args⟩ = none := by
  simp only [dashes, Getopt.getoptLong, Getopt.skipWords_option]
  rfl

theorem getoptLong_letters {c : Char} (hc : c ≠ '-') (cs : CString) (args : List CString) :
    g.getoptLong ⟨[], ('-' :: c :: cs) :: args⟩ = g.getoptLong ⟨c :: cs, args⟩ := by
  simp only [Getopt.getoptLong, Getopt.skipWords_option]

theorem getoptLong_long {text : CString} (hne : text ≠ []) (args : List CString) :
    g.getoptLong ⟨[], ('-' :: '-' :: text) :: args⟩ = some (g.longStep text args) := by
  simp only [Getopt.getoptLong, Getopt.skipWords_option, if_neg hne]

theorem optionLoop_long {text : CString} (hne : text ≠ []) (args : List CString) (st : σ) :
    optionLoop g f ⟨[], ('-' :: '-' :: text) :: args⟩ st =
      f st (g.longStep text args).1 >>= optionLoop g f (g.longStep text args).2 :=
  optionLoop_some g f (r := (g.longStep text args).1) (getoptLong_long hne args) st

theorem optionLoop_short (c : Char) (cs : CString) (args : List CString) (st : σ) :
    optionLoop g f ⟨c :: cs, args⟩ st =
      f st (g.shortStep c cs args).1 >>= optionLoop g f (g.shortStep c cs args).2 :=
  optionLoop_some g f (r := (g.shortStep c cs args).1) rfl st

theorem Letters.optionLoop_eq (hbad : EndsAtError f) {cs : CString} {args : List CString}
    {founds : List (Found φ)} {after : Option (List CString)}
    (h : Letters g cs args founds after) (st : σ) :
    optionLoop g f ⟨cs, args⟩ st = founds.foldlM f st >>= resume g f after := by
  induction h generalizing st with
  | done args => rfl
  | flag harg h ih =>
    rw [optionLoop_short, Getopt.shortStep_flag harg, List.foldlM_cons, bind_assoc]
    exact bind_congr fun st => ih st
  | attached args harg hne =>
    rw [optionLoop_short, Getopt.shortStep_attached harg hne, List.foldlM_cons, bind_assoc]
    rfl
  | separate a args harg =>
    rw [optionLoop_short, Getopt.shortStep_separate harg, List.foldlM_cons, bind_assoc]
    rfl
  | missing harg =>
    rw [optionLoop_short, Getopt.shortStep_missing harg]
    exact hbad.bind st _
  | unknown cs args harg =>
    rw [optionLoop_short, Getopt.shortStep_unknown harg]
    exact hbad.bind st _

theorem takeWhile_name {name : CString} (h : '=' ∉ name) (rest : CString) :
    (name ++ rest).takeWhile (· ≠ '=') = name ++ rest.takeWhile (· ≠ '=') := by
  rw [List.takeWhile_append_of_pos]
  intro c hc
  simpa using fun e : c = '=' => h (e ▸ hc)

theorem dropWhile_name {name : CString} (h : '=' ∉ name) (rest : CString) :
    (name ++ rest).dropWhile (· ≠ '=') = rest.dropWhile (· ≠ '=') := by
  rw [List.dropWhile_append_of_pos]
  intro c hc
  simpa using fun e : c = '=' => h (e ▸ hc)

theorem longStep_name {name : CString} (h : '=' ∉ name) (args : List CString) :
    g.longStep name args =
      match g.longOption name with
      | none => (badOption, ⟨[], args⟩)
      | some o =>
        if o.hasArg then
          match args with
          | [] => (badOption, ⟨[], []⟩)
          | a :: args => (o.found (some a), ⟨[], args⟩)
        else (o.found none, ⟨[], args⟩) := by
  have htake := takeWhile_name h []
  have hdrop := dropWhile_name h []
  rw [List.append_nil] at htake hdrop
  rw [Getopt.longStep, htake, hdrop]
  simp only [List.takeWhile_nil, List.dropWhile_nil, List.append_nil]

theorem longStep_eq {name : CString} (h : '=' ∉ name) (a : CString) (args : List CString) :
    g.longStep (name ++ '=' :: a) args =
      match g.longOption name with
      | none => (badOption, ⟨[], args⟩)
      | some o =>
        if o.hasArg then (o.found (some a), ⟨[], args⟩) else (badOption, ⟨[], args⟩) := by
  rw [Getopt.longStep, takeWhile_name h, dropWhile_name h]
  simp

theorem Long.optionLoop_eq (hbad : EndsAtError f) {text : CString} {args : List CString}
    {founds : List (Found φ)} {after : Option (List CString)} (h : Long g text args founds after)
    (st : σ) :
    f st (g.longStep text args).1 >>= optionLoop g f (g.longStep text args).2 =
      founds.foldlM f st >>= resume g f after := by
  cases h with
  | flag args hname ho harg =>
    rw [longStep_name hname, ho]
    simp only [harg, List.foldlM_cons, bind_assoc]
    rfl
  | attached a args hname ho harg =>
    rw [longStep_eq hname, ho]
    simp only [harg, List.foldlM_cons, bind_assoc]
    rfl
  | separate a args hname ho harg =>
    rw [longStep_name hname, ho]
    simp only [harg, List.foldlM_cons, bind_assoc]
    rfl
  | missing hname ho harg =>
    rw [longStep_name hname, ho]
    simp only [harg]
    exact hbad.bind st _
  | extra a args hname ho harg =>
    rw [longStep_eq hname, ho]
    simp only [harg]
    exact hbad.bind st _
  | unknown args ho =>
    rw [Getopt.longStep, ho]
    exact hbad.bind st _

theorem foldlM_calls_true (founds : List (Found φ)) (st : σ) :
    (calls founds true).foldlM f st = founds.foldlM f st >>= resume g f none := by
  rw [calls, if_pos rfl, List.foldlM_append]
  refine bind_congr fun st => ?_
  rw [List.foldlM_cons]
  exact bind_pure _

/-- **The loop goes through what the command line says.** -/
theorem Reads.optionLoop_eq (hbad : EndsAtError f) {args : List CString} {founds : List (Found φ)}
    {err : Bool} (h : Reads g args founds err) (st : σ) :
    optionLoop g f ⟨[], args⟩ st = (calls founds err).foldlM f st := by
  induction h generalizing st with
  | nil =>
    refine optionLoop_none g f ?_ st
    simp [Getopt.getoptLong, Getopt.skipWords]
  | word hp hw h ih => exact (optionLoop_congr (getoptLong_word hp hw _) st).trans (ih st)
  | stop args hp hw => exact optionLoop_none g f (getoptLong_stop hp hw args) st
  | dashes args => exact optionLoop_none g f (getoptLong_dashes args) st
  | letters hc hl h ih =>
    rw [optionLoop_congr (getoptLong_letters hc _ _), hl.optionLoop_eq hbad, foldlM_calls_append]
    exact bind_congr fun st => ih st
  | badLetters hc hl =>
    rw [optionLoop_congr (getoptLong_letters hc _ _), hl.optionLoop_eq hbad, foldlM_calls_true]
  | long hne hl h ih =>
    rw [optionLoop_long hne, hl.optionLoop_eq hbad, foldlM_calls_append]
    exact bind_congr fun st => ih st
  | badLong hne hl =>
    rw [optionLoop_long hne, hl.optionLoop_eq hbad, foldlM_calls_true]

/-! ## Every command line -/

theorem Long.after_sublist {text : CString} {args args' : List CString} {founds : List (Found φ)}
    (h : Long g text args founds (some args')) : args'.Sublist args := by
  cases h with
  | flag | attached => exact List.Sublist.refl _
  | separate => exact List.sublist_cons_self _ _

theorem exists_long (g : Getopt φ) (text : CString) (args : List CString) :
    ∃ founds after, Long g text args founds after := by
  have hname : '=' ∉ text.takeWhile (· ≠ '=') := fun h => by simpa using List.mem_takeWhile_imp h
  have hsplit := List.takeWhile_append_dropWhile (p := (· ≠ '=')) (l := text)
  cases ho : g.longOption (text.takeWhile (· ≠ '=')) with
  | none => exact ⟨[], none, .unknown args ho⟩
  | some o =>
    generalize text.takeWhile (· ≠ '=') = name at *
    cases hdrop : text.dropWhile (· ≠ '=') with
    | nil =>
      obtain rfl : name = text := by rw [← hsplit, hdrop, List.append_nil]
      cases harg : o.hasArg with
      | false => exact ⟨_, some args, .flag args hname ho harg⟩
      | true =>
        cases args with
        | nil => exact ⟨[], none, .missing hname ho harg⟩
        | cons a args => exact ⟨_, some args, .separate a args hname ho harg⟩
    | cons e a =>
      obtain rfl : e = '=' := by
        have hhead := List.head?_dropWhile_not (fun c : Char => decide (c ≠ '=')) text
        rw [hdrop] at hhead
        simpa using hhead
      rw [hdrop] at hsplit
      subst hsplit
      cases harg : o.hasArg with
      | false => exact ⟨[], none, .extra a args hname ho harg⟩
      | true => exact ⟨_, some args, .attached a args hname ho harg⟩

/-- Every command line says something. -/
theorem exists_reads (g : Getopt φ) (args : List CString) :
    ∃ founds err, Reads g args founds err := by
  induction hn : args.length using Nat.strong_induction_on generalizing args with
  | _ n ih =>
    subst hn
    cases args with
    | nil => exact ⟨[], false, .nil⟩
    | cons arg args =>
      have hrest : ∀ args' : List CString, args'.length ≤ args.length →
          ∃ founds err, Reads g args' founds err := fun args' hlen =>
        ih _ (Nat.lt_succ_of_le hlen) args' rfl
      rcases isWord_or arg with hw | ⟨c, cs, rfl⟩
      · cases hp : g.posixlyCorrect with
        | true => exact ⟨[], false, .stop args hp hw⟩
        | false =>
          obtain ⟨founds, err, h⟩ := hrest args le_rfl
          exact ⟨founds, err, .word hp hw h⟩
      by_cases hc : c = '-'
      · subst hc
        by_cases hne : cs = []
        · subst hne
          exact ⟨[], false, .dashes args⟩
        · obtain ⟨founds, after, hl⟩ := exists_long g cs args
          cases after with
          | none => exact ⟨founds, true, .badLong hne hl⟩
          | some args' =>
            obtain ⟨founds', err, h⟩ := hrest args' hl.after_sublist.length_le
            exact ⟨founds ++ founds', err, .long hne hl h⟩
      · obtain ⟨founds, after, hl⟩ := exists_letters g (c :: cs) args
        cases after with
        | none => exact ⟨founds, true, .badLetters hc hl⟩
        | some args' =>
          obtain ⟨founds', err, h⟩ := hrest args' hl.after_sublist.length_le
          exact ⟨founds ++ founds', err, .letters hc hl h⟩

/-! ## Arguments -/

theorem Long.fromWords {w text : CString} {args : List CString} {founds : List (Found φ)}
    {after : Option (List CString)} (h : Long g text args founds after) (hw : text <:+ w) :
    FromWords (w :: args) founds := by
  cases h with
  | missing | extra | unknown => exact fun r hr => absurd hr List.not_mem_nil
  | flag args hname ho harg =>
    refine List.forall_mem_singleton.mpr fun a ha => ?_
    rw [LongOption.optarg_found] at ha
    exact absurd ha (by simp)
  | attached a args hname ho harg =>
    refine List.forall_mem_singleton.mpr fun a' ha => ?_
    rw [LongOption.optarg_found, Option.mem_some] at ha
    subst ha
    refine ⟨w, List.mem_cons_self, List.IsSuffix.trans ?_ hw⟩
    exact (List.suffix_cons _ _).trans (List.suffix_append _ _)
  | separate a args hname ho harg =>
    refine List.forall_mem_singleton.mpr fun a' ha => ?_
    rw [LongOption.optarg_found, Option.mem_some] at ha
    subst ha
    exact ⟨_, List.mem_cons_of_mem _ List.mem_cons_self, List.suffix_rfl⟩

/-- The arguments that a program gets are ends of words of its command line. -/
theorem Reads.fromWords {args : List CString} {founds : List (Found φ)} {err : Bool}
    (h : Reads g args founds err) : FromWords args founds := by
  induction h with
  | nil | stop | dashes => exact fun r hr => absurd hr List.not_mem_nil
  | word hp hw h ih => exact ih.mono (List.sublist_cons_self _ _)
  | letters hc hl h ih =>
    exact (hl.fromWords (List.suffix_cons _ _)).append (ih.mono (hl.after_sublist.cons _))
  | badLetters hc hl => exact hl.fromWords (List.suffix_cons _ _)
  | long hne hl h ih =>
    exact (hl.fromWords ((List.suffix_cons _ _).trans (List.suffix_cons _ _))).append
      (ih.mono (hl.after_sublist.cons _))
  | badLong hne hl => exact hl.fromWords ((List.suffix_cons _ _).trans (List.suffix_cons _ _))

end

end

end Pcitop.Common
