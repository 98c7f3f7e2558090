import Reckon.Corpus.Command

/-!
# A corpus that grows

All programs of a seed are drawn from one source, one after the other, and each takes as many draws
as it happens to need. Whoever asks for more of them gets the same programs again and others after
them, under names that are all different, so that no file of the corpus is overwritten.

* `samples_take` is the induction on the source: what is drawn first does not depend on how much is
  drawn. `files_take` carries it over to files.
* `ofDigitChars_paddedDigits` reads the index of a program in the name of its file, be it shorter than
  six digits or longer, and so no two names are the same (`fileName_inj`).
* `Disk` is what is found in files later. `Disk.store_of_mem` and `Disk.store_of_not_mem` follow one
  file while all of them are written.
-/

namespace Reckon.Corpus

open Draw

/-! ## What is drawn first -/

section Draws

variable {m n : Nat} (t : Twister)

theorem length_samples (n : Nat) : (samples n t).length = n := by
  induction n generalizing t with
  | zero => rfl
  | succ n ih => rw [samples, List.length_cons, ih]

/-- **The first samples stay as they are**, however many are drawn after them. -/
theorem samples_take (h : m ≤ n) : (samples n t).take m = samples m t := by
  induction m generalizing n t with
  | zero => rfl
  | succ m ih =>
    obtain ⟨k, rfl⟩ : ∃ k, n = k + 1 := ⟨n - 1, by omega⟩
    rw [samples, samples, List.take_succ_cons, ih _ (Nat.le_of_succ_le_succ h)]

end Draws

section Files

variable {seed m n : Int}

theorem length_programs : (programs seed n).length = n.toNat := by
  rw [programs, List.length_map, length_samples]

theorem programs_take (h : m ≤ n) : (programs seed n).take m.toNat = programs seed m := by
  rw [programs, ← List.map_take, samples_take _ (Int.toNat_le_toNat h), programs]

theorem length_files : (files seed n).length = n.toNat := by
  rw [files, List.length_mapIdx, length_programs]

theorem getElem?_files (i : Nat) :
    (files seed n)[i]? = (programs seed n)[i]?.map fun text => (fileName i, text) :=
  List.getElem?_mapIdx

theorem files_take (h : m ≤ n) : (files seed n).take m.toNat = files seed m := by
  apply List.ext_getElem?
  intro i
  rw [List.getElem?_take, getElem?_files, getElem?_files, ← programs_take h, List.getElem?_take]
  split
  · rfl
  · rfl

end Files

/-! ## Names of files -/

/-- Zeros in front of digits do not count. -/
theorem ofDigitChars_replicate_zero (k : Nat) :
    Nat.ofDigitChars 10 (List.replicate k '0') 0 = 0 := by
  induction k with
  | zero => rfl
  | succ k ih => rw [List.replicate_succ, Nat.ofDigitChars_cons]; exact ih

/-- The digits in the name of a file. -/
def paddedDigits (i : Nat) : List Char :=
  List.replicate (6 - (toString i).toList.length) '0' ++ (toString i).toList

/-- The digits in the name of a file spell the index of the program, also if there are more than six
of them. -/
theorem ofDigitChars_paddedDigits (i : Nat) : Nat.ofDigitChars 10 (paddedDigits i) 0 = i := by
  rw [paddedDigits, Nat.ofDigitChars_append, ofDigitChars_replicate_zero, Nat.toString_eq_repr,
    Nat.toList_repr, Nat.ofDigitChars_ten_toDigits]

theorem toList_fileName (i : Nat) :
    (fileName i).toList = "case_".toList ++ (paddedDigits i ++ ".slpy".toList) := by
  have hdigits : (String.ofList (paddedDigits i)).toList = paddedDigits i := String.toList_ofList
  show ("case_" ++ String.ofList (paddedDigits i) ++ ".slpy").toList = _
  rw [String.toList_append, String.toList_append, hdigits, List.append_assoc]

/-- **Programs have files of their own.** -/
theorem fileName_inj {i j : Nat} (h : fileName i = fileName j) : i = j := by
  have hlists : "case_".toList ++ (paddedDigits i ++ ".slpy".toList) =
      "case_".toList ++ (paddedDigits j ++ ".slpy".toList) := by
    rw [← toList_fileName, ← toList_fileName, h]
  have hdigits : paddedDigits i = paddedDigits j :=
    List.append_cancel_right (List.append_cancel_left hlists)
  rw [← ofDigitChars_paddedDigits i, hdigits, ofDigitChars_paddedDigits]

/-- Different indices, different names. -/
theorem nodup_names {files : List (String × String)} (f : Nat → String)
    (hf : ∀ i j, f i = f j → i = j)
    (hfiles : ∀ i file, files[i]? = some file → file.1 = f i) :
    (files.map Prod.fst).Nodup := by
  rw [List.Nodup, List.pairwise_map, List.pairwise_iff_getElem]
  intro i j hi hj hij heq
  have hsame : f i = f j := by
    rw [← hfiles i _ (List.getElem?_eq_getElem hi), ← hfiles j _ (List.getElem?_eq_getElem hj), heq]
  exact absurd (hf i j hsame) (Nat.ne_of_lt hij)

/-! ## Files that are written -/

/-- What each file holds. -/
abbrev Disk := String → Option String

namespace Disk

/-- The disk after a file has been written; what the file held before is lost. -/
def write (d : Disk) (file : String × String) : Disk := fun path =>
  if path = file.1 then some file.2 else d path

/-- The disk after files have been written, one after the other. -/
def store (d : Disk) (files : List (String × String)) : Disk := files.foldl write d

variable {d : Disk} {files : List (String × String)} {path text : String}

/-- Files that are not written stay as they are. -/
theorem store_of_not_mem (h : path ∉ files.map Prod.fst) : d.store files path = d path := by
  induction files generalizing d with
  | nil => rfl
  | cons file files ih =>
    rw [List.map_cons, List.mem_cons, not_or] at h
    calc (d.write file).store files path = d.write file path := ih h.2
      _ = d path := if_neg h.1

/-- **A file that is written once holds what was written.** -/
theorem store_of_mem (hnodup : (files.map Prod.fst).Nodup) (h : (path, text) ∈ files) :
    d.store files path = some text := by
  induction files generalizing d with
  | nil => cases h
  | cons file files ih =>
    rw [List.map_cons, List.nodup_cons] at hnodup
    rcases List.mem_cons.1 h with rfl | h
    · -- it is written first, and not again
      calc (d.write (path, text)).store files path = d.write (path, text) path :=
            store_of_not_mem hnodup.1
        _ = some text := if_pos rfl
    · exact ih hnodup.2 h

end Disk

/-- The files in the folder hold the texts, each text in the file with its own index. -/
structure HoldEach (folder : String) (texts : List String) (files : List (String × String)) :
    Prop where
  /-- There are as many files as texts. -/
  length : files.length = texts.length
  /-- No file is written twice. -/
  nodup : (files.map Prod.fst).Nodup
  /-- Once all files are written, each holds its own text. -/
  own (disk : Disk) (i : Nat) (text : String) (h : texts[i]? = some text) :
    disk.store files s!"{folder}/{fileName i}" = some text
  /-- All other files are as they were. -/
  others (disk : Disk) (path : String)
    (h : ∀ i, i < texts.length → path ≠ s!"{folder}/{fileName i}") :
    disk.store files path = disk path

/-- The path of a file tells its name. -/
theorem path_inj {folder name other : String} (h : s!"{folder}/{name}" = s!"{folder}/{other}") :
    name = other :=
  (String.append_right_inj (folder ++ "/")).1 h

theorem getElem?_stored (plan : Plan) (i : Nat) :
    (Action.store plan).stored[i]? =
      (programs plan.seed plan.count)[i]?.map fun text =>
        (s!"{plan.folder}/{fileName i}", text) := by
  rw [Action.stored, List.getElem?_map, Plan.files, getElem?_files, Option.map_map]
  rfl

/-- **Every program of a corpus is stored in a file of its own.** -/
theorem stored_holdEach (plan : Plan) :
    HoldEach plan.folder (programs plan.seed plan.count) (Action.store plan).stored := by
  have hnodup : ((Action.store plan).stored.map Prod.fst).Nodup := by
    apply nodup_names fun i => s!"{plan.folder}/{fileName i}"
    · exact fun i j h => fileName_inj (path_inj h)
    · intro i file hfile
      rw [getElem?_stored] at hfile
      obtain ⟨text, -, rfl⟩ := Option.map_eq_some_iff.1 hfile
      rfl
  refine ⟨?_, hnodup, fun disk i text h => ?_, fun disk path h => ?_⟩
  · rw [Action.stored, List.length_map, Plan.files, length_files, length_programs]
  · apply Disk.store_of_mem hnodup
    apply List.mem_of_getElem? (i := i)
    rw [getElem?_stored, h]
    rfl
  · apply Disk.store_of_not_mem
    intro hmem
    obtain ⟨file, hfile, hpath⟩ := List.mem_map.1 hmem
    obtain ⟨i, hi⟩ := List.mem_iff_getElem?.1 hfile
    rw [getElem?_stored] at hi
    obtain ⟨text, htext, rfl⟩ := Option.map_eq_some_iff.1 hi
    obtain ⟨hlt, -⟩ := List.getElem?_eq_some_iff.1 htext
    exact h i hlt hpath.symm

/-- **A corpus only grows.** The first files of a seed are the same whatever the number of files that
are asked for, and there are as many files as were asked for, with different names. So wherever the
corpus is stored, each of its programs is in a file of its own, and no other file is touched; these are
the files that the command stores. -/
theorem files_growStably (seed m n : Int) (h : m ≤ n) :
    files seed m = (files seed n).take m.toNat ∧
    (files seed n).length = n.toNat ∧ ((files seed n).map Prod.fst).Nodup ∧
    ∀ (out here : String),
      let plan : Plan := ⟨seed, n, out⟩
      (Action.store plan).stored.length = n.toNat ∧
      HoldEach plan.folder (programs seed n) (Action.store plan).stored ∧
      ((Action.store plan).perform here).2 = (Action.store plan).stored := by
  refine ⟨(files_take h).symm, length_files, ?_, fun out here => ?_⟩
  · apply nodup_names fileName fun i j => fileName_inj
    intro i file hfile
    rw [getElem?_files] at hfile
    obtain ⟨text, -, rfl⟩ := Option.map_eq_some_iff.1 hfile
    rfl
  · have heach := stored_holdEach ⟨seed, n, out⟩
    exact ⟨heach.length.trans length_programs, heach, rfl⟩

/-- The program after the first million of a seed has a name with seven digits. The command stores it
like the others, also beside the folder that it works in. -/
theorem files_growStably_million :
    let plan : Plan := ⟨3, 1000001, "../corpora"⟩
    let stored := ((Action.store plan).perform "/home/work").2
    files 3 1000000 = (files 3 1000001).take 1000000 ∧ (files 3 1000001).length = 1000001 ∧
      ((files 3 1000001).map Prod.fst).Nodup ∧
      fileName 99999 = "case_099999.slpy" ∧ fileName 1000000 = "case_1000000.slpy" ∧
      stored.length = 1000001 ∧ HoldEach plan.folder (programs 3 1000001) stored := by
  intro plan stored
  obtain ⟨htake, hlength, hnodup, hcommand⟩ := files_growStably 3 1000000 1000001 (by decide)
  obtain ⟨hcount, heach, hstored⟩ := hcommand "../corpora" "/home/work"
  rw [show stored = (Action.store plan).stored from hstored]
  exact ⟨htake, hlength, hnodup, by decide +kernel, by decide +kernel, hcount, heach⟩

end Reckon.Corpus
