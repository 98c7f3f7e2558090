import Reckon.Command
import Reckon.Corpus

/-!
# The command that stores a corpus

The command makes the corpus of a seed and stores it in a folder of its own, whose name tells the
seed and the number of programs; then it says where the folder is.
-/

namespace Reckon.Corpus

/-- How to use the command. -/
def manual : Manual where
  name := "generate_corpus"
  usage := "usage: generate_corpus [-h] [--seed SEED] [--count COUNT] [--out OUT]"
  details := "options:\n" ++
    "  -h, --help     show this help message and exit\n" ++
    "  --seed SEED\n" ++
    "  --count COUNT\n" ++
    "  --out OUT\n"

/-- What can be set. -/
inductive Setting
  | help
  | seed
  | count
  | out
deriving DecidableEq, Repr

/-- The flags of the command. -/
def flags : List (Options.Flag Setting) :=
  [⟨.help, ["-h", "--help"], false⟩, ⟨.seed, ["--seed"], true⟩, ⟨.count, ["--count"], true⟩,
   ⟨.out, ["--out"], true⟩]

/-- Which corpus is to be stored, and where. -/
structure Plan where
  /-- The seed. -/
  seed : Int := 1
  /-- The number of programs. -/
  count : Int := 300
  /-- The path of the folder in which the folder of the corpus is made. -/
  out : String := "tests/fixtures/generated_corpus"
deriving DecidableEq, Repr

/-- What the command is to do. -/
inductive Action
  /-- Show how to use the command. -/
  | help
  /-- Refuse the command line. -/
  | refuse (message : String)
  /-- Store a corpus. -/
  | store (plan : Plan)
deriving DecidableEq, Repr

/-- The number that is the value of a flag. -/
def number (f : Options.Flag Setting) (text : String) : Except String Int :=
  match Text.integer? text with
  | some n => .ok n
  | none => .error s!"argument {f.label}: invalid int value: {Text.quoted text}"

/-- Changes a plan by what is asked for, in order; `complaint` is what is wrong in the end. -/
def Action.follow (complaint : Option String) (plan : Plan) :
    List (Options.Item Setting) → Action
  | [] =>
    match complaint with
    | some message => .refuse message
    | none => .store plan
  | .set f :: rest => if f.key = .help then .help else follow complaint plan rest
  | .operand _ :: rest => follow complaint plan rest
  | .value f text :: rest =>
    match f.key with
    | .help => .help
    | .out => follow complaint { plan with out := text } rest
    | .seed =>
      match number f text with
      | .error message => .refuse message
      | .ok n => follow complaint { plan with seed := n } rest
    | .count =>
      match number f text with
      | .error message => .refuse message
      | .ok n => follow complaint { plan with count := n } rest

/-- What a command line means. -/
def Action.ofWords (words : List String) : Action :=
  let collected := Options.read flags false words
  follow collected.complaint {} collected.items

/-- The name of the folder of a corpus. -/
def Plan.folderName (p : Plan) : String := s!"seed_{p.seed}_count_{p.count}"

/-- The place of the folder of a corpus, as seen from the folder that the command works in, if it is
below that. -/
def Plan.place? (p : Plan) : Option (List String) :=
  match Path.target p.out with
  | .inside parts => some (parts ++ [p.folderName])
  | .above | .outside => none

/-- The path of the folder of a corpus, as seen from the folder that the command works in. -/
def Plan.folder (p : Plan) : String :=
  match p.place? with
  | some place => "/".intercalate place
  | none => s!"{Path.resolved p.out}/{p.folderName}"

/-- The files of a corpus: their names in the folder of the corpus, and what they hold. -/
def Plan.files (p : Plan) : List (String × String) := Corpus.files p.seed p.count

/-- The files that are stored, one after the other: their paths, as seen from the folder that the
command works in, and what they hold. -/
def Action.stored : Action → List (String × String)
  | store plan => plan.files.map fun f => (s!"{plan.folder}/{f.1}", f.2)
  | help | refuse _ => []

/-- What the command says: the whole path of the folder. One that is below the folder `here`, which the
command works in, begins with that. -/
def Action.outcome (here : String) : Action → Outcome
  | help => manual.help
  | refuse message => manual.refuse message
  | store plan =>
    match plan.place? with
    | some _ => ⟨.ok 0, s!"{here}/{plan.folder}\n", ""⟩
    | none => ⟨.ok 0, s!"{plan.folder}\n", ""⟩

/-- What the command says, and the files that it stores, wherever these are. -/
def Action.perform (here : String) (a : Action) : Outcome × List (String × String) :=
  (a.outcome here, a.stored)

end Reckon.Corpus
