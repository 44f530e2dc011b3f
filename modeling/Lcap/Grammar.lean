import Lcap.Config

namespace Lcap.Config

/-! ## What a configuration file is to say -/

inductive Directive
  | batchRecords | maxBuckets | logtype | workers | mdtdevice | clreader
  deriving DecidableEq, Repr

namespace Directive

def name : Directive → String
  | .batchRecords => "batch_records"
  | .maxBuckets => "max_buckets"
  | .logtype => "logtype"
  | .workers => "workers"
  | .mdtdevice => "mdtdevice"
  | .clreader => "clreader"

def keyword (d : Directive) : List UInt8 := bytes d.name

def all : List Directive := [.batchRecords, .maxBuckets, .logtype, .workers, .mdtdevice, .clreader]

/-- What has been said before admits no other directive of this kind. -/
def Refused (config : ParsedCfg) : Directive → Prop
  | .batchRecords | .maxBuckets => False
  | .logtype => config.ccfLoggername.isSome
  | .workers => config.ccfWorkerCount ≠ 0
  | .mdtdevice => maxMdt ≤ config.ccfMdt.length
  | .clreader => config.ccfClreader.isSome

instance (config : ParsedCfg) : (d : Directive) → Decidable (d.Refused config)
  | .batchRecords | .maxBuckets => inferInstanceAs (Decidable False)
  | .logtype | .clreader => inferInstanceAs (Decidable (_ = true))
  | .workers => inferInstanceAs (Decidable (_ ≠ _))
  | .mdtdevice => inferInstanceAs (Decidable (_ ≤ _))

def set (config : ParsedCfg) (arg : List UInt8) : Directive → ParsedCfg
  | .batchRecords => { config with ccfRecBatchCount := atoi arg }
  | .maxBuckets => { config with ccfMaxBkt := atoi arg }
  | .logtype => { config with ccfLoggername := some arg }
  | .workers => { config with ccfWorkerCount := atoi arg }
  | .mdtdevice => { config with ccfMdt := config.ccfMdt ++ [arg] }
  | .clreader => { config with ccfClreader := some arg }

/-- The argument is a number that no `long` can hold. -/
def Beyond (arg : List UInt8) : Directive → Prop
  | .batchRecords | .maxBuckets | .workers => beyondLong arg = true
  | .logtype | .mdtdevice | .clreader => False

instance (arg : List UInt8) : (d : Directive) → Decidable (d.Beyond arg)
  | .batchRecords | .maxBuckets | .workers => inferInstanceAs (Decidable (_ = true))
  | .logtype | .mdtdevice | .clreader => inferInstanceAs (Decidable False)

end Directive

def Blanks (s : List UInt8) : Prop := ∀ c ∈ s, isspace c = true

def Word (s : List UInt8) : Prop := s ≠ [] ∧ ∀ c ∈ s, isspace c = false

instance (s : List UInt8) : Decidable (Blanks s) := inferInstanceAs (Decidable (∀ c ∈ s, _))

/-- The grammar of a line: blanks, a comment, or a keyword in any case and its argument,
the first word behind it. -/
inductive Says : List UInt8 → Option (Directive × List UInt8) → Prop
  | blank (h : Blanks line) : Says line none
  | comment (hindent : Blanks indent) : Says (indent ++ 35 :: rest) none
  | directive (hindent : Blanks indent) (hword : word.map tolower = d.keyword)
      (hgap : Blanks gap) (hne : gap ≠ []) (harg : Word arg)
      (htail : ∀ c ∈ tail.head?, isspace c = true) :
      Says (indent ++ (word ++ (gap ++ (arg ++ tail)))) (some (d, arg))

/-- The grammar of a file, with the configuration that its directives make one after the
other. -/
inductive FileSays : ParsedCfg → List (List UInt8) → ParsedCfg → Prop
  | nil : FileSays config [] config
  | skip (h : Says line none) (hrest : FileSays config rest config') :
      FileSays config (line :: rest) config'
  | directive (h : Says line (some (d, arg))) (hfree : ¬ d.Refused config)
      (hrest : FileSays (d.set config arg) rest config') : FileSays config (line :: rest) config'

/-! ## The grammar as a program -/

def keywordOf (line : List UInt8) : Option Directive :=
  Directive.all.find? fun d => startswith line d.keyword

/-- The first word behind a keyword that ends there. -/
def argument : List UInt8 → Option (List UInt8)
  | [] => none
  | c :: rest =>
    if isspace c then match rest.dropWhile isspace with
      | [] => none
      | word => some (word.takeWhile (!isspace ·))
    else none

def statement (line : List UInt8) : Option (Option (Directive × List UInt8)) :=
  match line.dropWhile isspace with
  | [] => some none
  | c :: rest =>
    if c = 35 then some none
    else match keywordOf (c :: rest) with
      | none => none
      | some d => (argument ((c :: rest).drop d.keyword.length)).map fun arg => some (d, arg)

/-- What a line makes of the configuration, if it may stand there. -/
def lineMeans (config : ParsedCfg) (line : List UInt8) : Option ParsedCfg :=
  match statement line with
  | none => none
  | some none => some config
  | some (some (d, arg)) => if d.Refused config then none else some (d.set config arg)

end Lcap.Config
