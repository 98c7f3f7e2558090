import Reckon.Text.Integer

/-!
# Command-line options

The words of a command line are flags, which begin with a dash, and operands. A flag may be
abbreviated as long as no other begins alike; single-letter flags may be run together behind one
dash; a value may be attached to a flag or follow as the next word; and after a word that consists
of two dashes everything is an operand. What a word is does not depend on the words around it,
so `classify` looks at one word, and `collect` then goes through the words in order.
-/

namespace Reckon.Options

/-- A flag that a command understands. -/
structure Flag (κ : Type) where
  /-- What the flag is for. -/
  key : κ
  /-- All spellings, dashes included. -/
  spellings : List String
  /-- Whether the flag comes with a value. -/
  takesValue : Bool

/-- How a message speaks of a flag. -/
def Flag.label {κ : Type} (f : Flag κ) : String := "/".intercalate f.spellings

/-- What a word is. -/
inductive Reading (κ : Type)
  /-- An operand, or the value of the flag before it. -/
  | plain
  /-- The end of all flags. -/
  | terminator
  /-- A flag that the command does not understand. -/
  | unknown
  /-- A flag in one of its spellings, perhaps with text attached. -/
  | flag (f : Flag κ) (spelling : String) (attached : Option (List Char))

/-- What a command line asks for. -/
inductive Item (κ : Type)
  /-- A flag without a value. -/
  | set (f : Flag κ)
  /-- A flag and its value. -/
  | value (f : Flag κ) (text : String)
  /-- An operand. -/
  | operand (text : String)

/-- A command line, taken apart. -/
structure Collected (κ : Type) where
  /-- What is asked for, in order, up to a failure if there is one. -/
  items : List (Item κ)
  /-- Words that nothing can be done with. -/
  extras : List String
  /-- What makes it impossible to go on. -/
  failure : Option String

section

variable {κ : Type} (flags : List (Flag κ))

/-! ## Single words -/

/-- All spellings of all flags. -/
def spellings : List (String × Flag κ) := flags.flatMap fun f => f.spellings.map fun s => (s, f)

/-- The flag with exactly this spelling. -/
def find? (spelling : String) : Option (Flag κ) := (spellings flags).lookup spelling

/-- Cuts a word at its first equals sign. -/
def splitValue (word : List Char) : List Char × Option (List Char) :=
  match word.dropWhile (· ≠ '=') with
  | [] => (word, none)
  | _ :: attached => (word.takeWhile (· ≠ '='), some attached)

/-- The ways to read a word that is no exact spelling. Behind two dashes it may be the beginning
of a spelling, with a value attached by an equals sign; behind one dash it may be a letter with more
letters or a value attached. -/
def candidates (word : List Char) : List (Flag κ × String × Option (List Char)) :=
  if word[1]? = some '-' then
    let (name, attached) := splitValue word
    (spellings flags).filterMap fun (s, f) =>
      if name.isPrefixOf s.toList then some (f, s, attached) else none
  else
    (spellings flags).filterMap fun (s, f) =>
      if s.toList = word.take 2 then some (f, s, some (word.drop 2))
      else if word.isPrefixOf s.toList then some (f, s, none)
      else none

/-- Whether a word is a negative number, which is no flag: a dash and digits, among which there may
be a decimal point before the last. A line feed at the end does not matter. -/
def isNegativeNumber (word : List Char) : Bool :=
  let isDigit (c : Char) : Bool := (Text.digitValue? c).isSome
  let body := if word.getLast? = some '\n' then word.dropLast else word
  match body with
  | '-' :: number =>
    match number.dropWhile isDigit with
    | [] => number ≠ []
    | '.' :: decimals => decimals ≠ [] && decimals.all isDigit
    | _ => false
  | _ => false

/-- What a word is, if there are not several flags that it may stand for. -/
def classify (word : String) : Except String (Reading κ) :=
  let cs := word.toList
  if cs.head? ≠ some '-' then .ok .plain
  else match find? flags word with
    | some f => .ok (.flag f word none)
    | none =>
      if cs.length = 1 then .ok .plain
      else
        let (name, attached) := splitValue cs
        match attached, find? flags (String.ofList name) with
        | some text, some f => .ok (.flag f (String.ofList name) (some text))
        | _, _ =>
          match candidates flags cs with
          | [(f, spelling, text)] => .ok (.flag f spelling text)
          | [] => .ok (if isNegativeNumber cs || cs.contains ' ' then .plain else .unknown)
          | several =>
            let names := ", ".intercalate (several.map fun c => c.2.1)
            .error s!"ambiguous option: {word} could match {names}"

/-- What all words are. -/
def classifyAll : List String → Except String (List (String × Reading κ))
  | [] => .ok []
  | word :: words =>
    if word = "--" then .ok ((word, .terminator) :: words.map fun w => (w, .plain))
    else do
      let reading ← classify flags word
      let rest ← classifyAll words
      return (word, reading) :: rest

/-! ## All words -/

/-- The complaint about text that is attached to a flag without a value. -/
def ignored (f : Flag κ) (attached : List Char) : String :=
  s!"argument {f.label}: ignored explicit argument {Text.quoted (String.ofList attached)}"

/-- Reads the letters behind a flag of one letter: those of more flags, up to one that takes the
remaining letters as its value. If that flag is the last letter it is given back, to take the next
word. -/
def bundle (f : Flag κ) : List Char → Except String (List (Item κ) × Option (Flag κ))
  | [] => .ok (if f.takesValue then ([], some f) else ([.set f], none))
  | c :: rest =>
    if f.takesValue then .ok ([.value f (String.ofList (c :: rest))], none)
    else match find? flags (String.ofList ['-', c]) with
      | none => .error (ignored f (c :: rest))
      | some g => do
        let (items, pending) ← bundle g rest
        return (.set f :: items, pending)

/-- What a flag asks for, together with what is attached to it, and the flag that is to take the
next word as its value, if any. -/
def expand (f : Flag κ) (spelling : String) (attached : Option (List Char)) :
    Except String (List (Item κ) × Option (Flag κ)) :=
  match attached with
  | none => bundle flags f []
  | some text =>
    if f.takesValue then .ok ([.value f (String.ofList text)], none)
    else if spelling.toList[1]? = some '-' ∨ text = [] then .error (ignored f text)
    else bundle flags f text

/-- More of what is asked for. -/
def Collected.add (items : List (Item κ)) (c : Collected κ) : Collected κ :=
  { c with items := items ++ c.items }

/-- One more word that nothing can be done with. -/
def Collected.addExtra (word : String) (c : Collected κ) : Collected κ :=
  { c with extras := word :: c.extras }

/-- A failure before anything is asked for. -/
def Collected.failed (message : String) : Collected κ := ⟨[], [], some message⟩

/-- Goes through the words in order. The first operand is taken if `wanted` says so, together with
a terminator that stands next to it; all others are left over. -/
def collect (wanted : Bool) : List (String × Reading κ) → Collected κ
  | [] => ⟨[], [], none⟩
  | (word, .plain) :: (dashes, .terminator) :: rest =>
    if wanted then (collect false rest).add [.operand word]
    else ((collect false rest).addExtra dashes).addExtra word
  | (word, .plain) :: rest =>
    if wanted then (collect false rest).add [.operand word]
    else (collect false rest).addExtra word
  | (word, .terminator) :: rest =>
    if wanted then collect wanted rest else (collect wanted rest).addExtra word
  | (word, .unknown) :: rest => (collect wanted rest).addExtra word
  | (_, .flag f spelling attached) :: (next, .plain) :: rest =>
    match expand flags f spelling attached with
    | .error message => .failed message
    | .ok (items, some g) => (collect wanted rest).add (items ++ [.value g next])
    | .ok (items, none) => (collect wanted ((next, .plain) :: rest)).add items
  | (_, .flag f spelling attached) :: rest =>
    match expand flags f spelling attached with
    | .error message => .failed message
    | .ok (_, some g) => .failed s!"argument {g.label}: expected one argument"
    | .ok (items, none) => (collect wanted rest).add items

/-- Takes a command line apart; `operand` says whether the command has an operand. -/
def read (operand : Bool) (words : List String) : Collected κ :=
  match classifyAll flags words with
  | .error message => .failed message
  | .ok readings => collect flags operand readings

end

/-- What is wrong with a command line after all that it asks for has been seen to. -/
def Collected.complaint {κ : Type} (c : Collected κ) : Option String :=
  match c.failure, c.extras with
  | some message, _ => some message
  | none, [] => none
  | none, extras => some ("unrecognized arguments: " ++ " ".intercalate extras)

end Reckon.Options
