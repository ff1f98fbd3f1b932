import PatternPages.Assembly
import Mathlib.Logic.Basic

/-! The two stages of an assembly. First everything is read that can end it (`readInputs`): the configuration, the patterns
and the matches, and the output directory is made in between. Then the pages are written (`publish`). The steps of both are
followed on file trees. -/
namespace PatternPages

structure CorpusInput where
  directory : Path
  path : Path
  document : Xml.Document
  deriving DecidableEq

def CorpusInput.collection (c : CorpusInput) (corpus : Corpus) : Collection :=
  ⟨corpus, c.directory, Match.ofDocument c.document⟩

inductive Corpora where
  | one (only : CorpusInput)
  | two (old new : CorpusInput)
  deriving DecidableEq

def Corpora.toList : Corpora → List (Corpus × CorpusInput)
  | one only => [(.old, only)]
  | two old new => [(.old, old), (.new, new)]

structure Inputs where
  patterns : Xml.Document
  corpora : Corpora
  deriving DecidableEq

def Inputs.patternList (inputs : Inputs) : List Pattern := Pattern.ofDocument inputs.patterns

def Request.documents (r : Request) (c : Configuration) : List Path :=
  r.results.join c.patterns ::
    match c.mode with
    | .oneClass found => [r.results.join found]
    | .twoClass oldMatches newMatches _ _ => [r.results.join oldMatches, r.results.join newMatches]

namespace Assembly

section Stages

variable {m : Type → Type} [Monad m] [FileStore m] [Xml.Parser]

def readConfiguration (r : Request) : ExceptT Error m Configuration := do
  loadConfiguration (← configurationPath r)

def readCorpora (r : Request) : Mode → ExceptT Error m Corpora
  | .oneClass found => do
    let document ← readDocument (r.results.join found)
    return .one ⟨r.source, r.results.join found, document⟩
  | .twoClass oldMatches newMatches oldInputs newInputs => do
    let old ← readDocument (r.results.join oldMatches)
    let new ← readDocument (r.results.join newMatches)
    return .two ⟨r.source.join oldInputs, r.results.join oldMatches, old⟩
      ⟨r.source.join newInputs, r.results.join newMatches, new⟩

def readDocuments (r : Request) (c : Configuration) : ExceptT Error m Inputs := do
  let patterns ← readDocument (r.results.join c.patterns)
  return ⟨patterns, ← readCorpora r c.mode⟩

def readInputs (r : Request) : ExceptT Error m Inputs := do
  let c ← readConfiguration r
  onFile r.output (FileStore.createDirectories r.output)
  readDocuments r c

def writeCorpora (output : Path) (patterns : List Pattern) : Corpora → ExceptT Error m (List Html.Node × Nat)
  | .one only => writeOneClass output (only.collection .old) [] patterns
  | .two old new => writeTwoClass output (old.collection .old) (new.collection .new) [] [] patterns

def publish (r : Request) (inputs : Inputs) : ExceptT Error m Report := do
  let (links, matchPages) ← writeCorpora r.output inputs.patternList inputs.corpora
  writePage r.output Html.patternsFile (.ok (Html.patternsPage (resultsName r.results) links).render)
  writePage r.output Html.indexFile (.ok Html.framesPage)
  return ⟨inputs.patternList.length, matchPages, r.output.join Html.indexFile⟩

/-- Everything that is read before the first page is read before any page is written. -/
theorem assemble_eq [LawfulMonad m] (r : Request) : (assemble r : ExceptT Error m Report) = readInputs r >>= publish r := by
  simp only [assemble, readInputs, readConfiguration, readDocuments, readPatterns, bind_assoc, pure_bind]
  congr; funext path; congr; funext c; congr; funext made; congr; funext patterns
  cases c.mode with
  | oneClass found => simp only [writeMode, readCorpora, readMatches, bind_assoc, pure_bind]; rfl
  | twoClass oldMatches newMatches oldInputs newInputs =>
    simp only [writeMode, readCorpora, readMatches, bind_assoc, pure_bind]; rfl

end Stages

/-! ## Steps on file trees -/

abbrev Action (α : Type) := ExceptT Error (StateM FileTree) α

namespace Action

variable {α β : Type}

def on (x : Action α) (t : FileTree) : Except Error α × FileTree := x.run t

theorem on_pure (a : α) (t : FileTree) : on (pure a) t = (.ok a, t) := rfl

theorem on_throw (e : Error) (t : FileTree) : on (throw e : Action α) t = (.error e, t) := rfl

theorem on_bind (x : Action α) (f : α → Action β) (t : FileTree) :
    on (x >>= f) t =
      match x.on t with
      | (.ok a, u) => (f a).on u
      | (.error e, u) => (.error e, u) := by
  unfold on
  simp only [bind, ExceptT.bind, ExceptT.mk, ExceptT.run, StateT.bind, ExceptT.bindCont]
  cases x t with
  | mk result u => cases result <;> rfl

theorem on_lift (x : StateM FileTree α) (t : FileTree) : on (liftM x : Action α) t = (.ok (x t).1, (x t).2) := rfl

theorem mapError_ok {ε ε' : Type} (f : ε → ε') (a : α) : Except.mapError f (.ok a) = .ok a := rfl

theorem mapError_error {ε ε' : Type} (f : ε → ε') (e : ε) : Except.mapError f (.error e : Except ε α) = .error (f e) := rfl

theorem on_onFile (p : Path) (x : StateM FileTree (Except FileError α)) (t : FileTree) :
    on (onFile p x : Action α) t = ((x t).1.mapError (Error.file p), (x t).2) := rfl

theorem on_bind_of_ok {x : Action α} {t u : FileTree} {a : α} (h : x.on t = (.ok a, u)) (f : α → Action β) :
    on (x >>= f) t = (f a).on u := by
  rw [on_bind, h]

theorem on_bind_of_error {x : Action α} {t u : FileTree} {e : Error} (h : x.on t = (.error e, u)) (f : α → Action β) :
    on (x >>= f) t = (.error e, u) := by
  rw [on_bind, h]

theorem on_bind_eq_ok {x : Action α} {f : α → Action β} {t v : FileTree} {b : β} (h : on (x >>= f) t = (.ok b, v)) :
    ∃ a u, x.on t = (.ok a, u) ∧ (f a).on u = (.ok b, v) := by
  rw [on_bind] at h
  cases first : x.on t with
  | mk result u =>
    rw [first] at h
    cases result with
    | error e => cases h
    | ok a => exact ⟨a, u, rfl, h⟩

/-- The step takes every tree to one that is in the relation to it, whether it fails or not. -/
def Keeps (R : FileTree → FileTree → Prop) (x : Action α) : Prop := ∀ t, R t (x.on t).2

variable {R : FileTree → FileTree → Prop}

theorem Keeps.pure (refl : ∀ t, R t t) (a : α) : Keeps R (Pure.pure a) := refl

theorem Keeps.bind (trans : ∀ t u v, R t u → R u v → R t v) {x : Action α} {f : α → Action β} (hx : Keeps R x)
    (hf : ∀ a, Keeps R (f a)) : Keeps R (x >>= f) := by
  intro t
  have first := hx t
  rw [on_bind]
  cases step : x.on t with
  | mk result u =>
    rw [step] at first
    cases result with
    | error e => exact first
    | ok a => exact trans t u _ first (hf a u)

abbrev Quiet (x : Action α) : Prop := Keeps (fun t u => u = t) x

end Action

end Assembly

end PatternPages
