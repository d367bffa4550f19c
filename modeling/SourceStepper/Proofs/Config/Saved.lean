import SourceStepper.Config.File
import SourceStepper.Proofs.Evm.Address
import SourceStepper.Proofs.FileTree.Write
import SourceStepper.Proofs.Toml.Document

namespace SourceStepper.Config

open Toml (Value)

structure Fits (c : Config) : Prop where
  frames : c.maxFrames ≤ Text.maxUnsigned
  gas : c.gasLimit ≤ Text.maxUnsigned

def textLine (key value : String) (bare : Toml.Bare key) : Toml.Line :=
  ⟨key, (Toml.writeText value).toList, .text value, bare, Toml.denotes_writeText value⟩

def natLine (key : String) (value : Nat) (bare : Toml.Bare key) (fits : value ≤ Text.maxUnsigned) :
    Toml.Line :=
  ⟨key, (toString value).toList, .integer value, bare, Toml.denotes_nat (by
    simp only [Text.maxUnsigned] at fits
    omega)⟩

def settings (c : Config) (fits : c.Fits) : List Toml.Line :=
  [textLine "project_root" c.projectRoot (by decide),
   textLine "build_dir" c.buildDir (by decide),
   textLine "source_root" c.sourceRoot (by decide),
   textLine "source_suffix" c.sourceSuffix (by decide),
   natLine "max_frames" c.maxFrames (by decide) fits.frames,
   textLine "caller" c.caller.plainText (by decide),
   natLine "gas_limit" c.gasLimit (by decide) fits.gas]

theorem lines_eq (c : Config) (fits : c.Fits) :
    c.lines = (c.settings fits).map fun l => (l.key, String.ofList l.written) := by
  simp only [lines, settings, textLine, natLine, List.map_cons, List.map_nil, String.ofList_toList]

theorem text_eq (c : Config) (fits : c.Fits) :
    c.text = String.ofList (Toml.textOf (c.settings fits)) := by
  rw [text, lines_eq c fits, List.map_map, ← String.toList_inj, String.toList_join,
    String.toList_ofList, Toml.textOf, List.flatMap_map]
  congr 1
  funext l
  simp [Toml.line]

theorem readText?_text (s : String) : readText? (.text s) = some s := rfl

theorem readNat?_integer {limit n : Nat} (fits : n ≤ limit) :
    readNat? limit (.integer n) = some n := by
  simp [readNat?, fits]

theorem readAddress?_plainText (a : Evm.Address) : readAddress? (.text a.plainText) = some a :=
  a.ofText?_plainText

theorem ofEntries?_settings (c : Config) (fits : c.Fits) :
    ofEntries? ((c.settings fits).map Toml.Line.entry) = some c := by
  simp [ofEntries?, setting?, settings, textLine, natLine, Toml.Line.entry, Toml.Entries.get?,
    List.lookup_cons, readText?_text, readNat?_integer fits.frames, readNat?_integer fits.gas,
    readAddress?_plainText]

theorem ofText?_text (c : Config) (fits : c.Fits) : ofText? c.text = some c := by
  have distinct : (c.settings fits).Pairwise fun a b => a.key ≠ b.key := by
    simp [settings, textLine, natLine]
  rw [ofText?, text_eq c fits, Toml.ofText?_textOf distinct, Option.bind_some, ofEntries?_settings]

theorem strict?_toUTF8 (s : String) : Text.strict? s.toUTF8 = some s := by
  rw [Text.strict?, String.fromUTF8?, String.toUTF8_eq_toByteArray, dif_pos s.isValidUTF8]
  rfl

/-- Settings that have been saved to a path are what is loaded from it. -/
theorem load_save {c : Config} (frames : c.maxFrames ≤ Text.maxUnsigned)
    (gas : c.gasLimit ≤ Text.maxUnsigned) {files files' : FileTree} {path : String}
    (saved : c.save files path = .ok files') :
    load files' path = .ok c := by
  rw [save] at saved
  split at saved
  · next files'' written =>
    obtain rfl := Except.ok.inj saved
    obtain ⟨key, found, held⟩ := FileTree.find?_write? written
    have text : files''.readText? path = some c.text := by
      rw [FileTree.readText?, FileTree.read?_write? written, Option.bind_some, strict?_toUTF8]
    rw [load, found, text]
    simp [ofText?_text c ⟨frames, gas⟩]
  · contradiction

/-- Settings with quotes, backslashes, line ends and control characters in their texts, and with the
largest numbers. -/
def hardSettings : Config where
  projectRoot := "\"\"\"\n\\'''"
  buildDir := "it's"
  sourceRoot := "\r\n\x1b"
  sourceSuffix := "'''\"\"\""
  maxFrames := Text.maxUnsigned
  gasLimit := Text.maxUnsigned

theorem load_save_hard : ∃ files, hardSettings.save {} fileName = .ok files ∧
    load files fileName = .ok hardSettings := by
  have saved : hardSettings.save {} fileName =
      .ok ⟨OrderedMap.empty.insert [".sdb.toml"] (.file hardSettings.text.toUTF8)⟩ := by
    rfl
  exact ⟨_, saved, load_save (by decide) (by decide) saved⟩

end SourceStepper.Config
