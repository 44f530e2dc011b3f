import Lcap.Reader.State

namespace Lcap.Config

def ENOENT : Int := 2
def ERANGE : Nat := 34

/-! ## The string functions of the C library, in the C locale -/

def isspace (c : UInt8) : Bool := c == 32 || (9 ≤ c && c ≤ 13)

def isdigit (c : UInt8) : Bool := 48 ≤ c && c ≤ 57

def tolower (c : UInt8) : UInt8 := if 65 ≤ c && c ≤ 90 then c + 32 else c

/-- What a string function sees of a buffer. -/
def cString (buf : List UInt8) : List UInt8 := buf.takeWhile (· ≠ 0)

/-- The bytes of a literal. -/
def bytes (s : String) : List UInt8 := s.toList.map fun c => UInt8.ofNat c.toNat

/-- The lines that successive calls of `fgets` return: at most `room` bytes each,
up to and with the newline. -/
def fgetsLines (room : Nat) : Nat → List UInt8 → List UInt8 → List (List UInt8)
  | _, line, [] => if line.isEmpty then [] else [line]
  | left, line, c :: rest =>
    if c = 10 ∨ left ≤ 1 then (line ++ [c]) :: fgetsLines room room [] rest
    else fgetsLines room (left - 1) (line ++ [c]) rest

/-- `sscanf` with `"%*s %254s"`, which returns one, or EOF when the line ends before
the second word. -/
def sscanfArg (line : List UInt8) : Option (List UInt8) :=
  match ((line.dropWhile isspace).dropWhile (!isspace ·)).dropWhile isspace with
  | [] => none
  | c :: rest => some (((c :: rest).takeWhile (!isspace ·)).take 254)

def digitsValue (s : List UInt8) : Nat :=
  (s.takeWhile isdigit).foldl (fun n c => 10 * n + (c.toNat - 48)) 0

/-- The low half of what `strtol` returns, which stays within a `long`. -/
def atoi (s : List UInt8) : Int :=
  match s.dropWhile isspace with
  | 45 :: rest => Int.bmod (max (-digitsValue rest) (-2 ^ 63)) (2 ^ 32)
  | 43 :: rest => Int.bmod (min (digitsValue rest) (2 ^ 63 - 1)) (2 ^ 32)
  | rest => Int.bmod (min (digitsValue rest) (2 ^ 63 - 1)) (2 ^ 32)

/-- Is the number outside the range of a `long`? -/
def beyondLong (s : List UInt8) : Bool :=
  match s.dropWhile isspace with
  | 45 :: rest => decide (2 ^ 63 < digitsValue rest)
  | 43 :: rest => decide (2 ^ 63 ≤ digitsValue rest)
  | rest => decide (2 ^ 63 ≤ digitsValue rest)

/-- `strtol` sets `errno` for such a number, and leaves it as it is for any other. -/
def atoiErrno (s : List UInt8) (errno : Nat) : Nat := if beyondLong s then ERANGE else errno

/-! ## The configuration file -/

def defaultRecBatch : Int := 64
def defaultMaxBuckets : Int := 256
def maxMdt : Nat := 128

/-- `struct lcap_cfg`, with `errno` beside it; `ccf_mdtcount` is the number of devices
listed. -/
structure ParsedCfg where
  ccfMdt : List (List UInt8) := []
  ccfClreader : Option (List UInt8) := none
  ccfFile : Option (List UInt8) := none
  ccfLoggername : Option (List UInt8) := none
  ccfOneshot : Bool := false
  ccfVerbosity : Int := 0
  ccfMaxBkt : Int := 0
  ccfRecBatchCount : Int := 0
  ccfWorkerCount : Int := 0
  errno : Nat := 0
  deriving DecidableEq, Repr

/-- What a line is read with: the outcome of `strdup`, and the string that lies in
the buffer of `cfg_get_arg` before it is written. -/
structure LineIo where
  strdup : Bool := true
  stack : List UInt8 := []

def startswith : List UInt8 → List UInt8 → Bool
  | _, [] => true
  | [], _ :: _ => false
  | c :: haystack, n :: needle => tolower c == tolower n && startswith haystack needle

/-- Only a return code of zero is an error to it, and `sscanf` gives none. -/
def cfgGetArg (io : LineIo) (line : List UInt8) : Option (List UInt8) :=
  if io.strdup then some ((sscanfArg line).getD io.stack) else none

def handleCfgBatchRecordsLine (config : ParsedCfg) (io : LineIo) (line : List UInt8) :
    ParsedCfg × Int :=
  match cfgGetArg io line with
  | none => (config, -EINVAL)
  | some count =>
    ({ config with ccfRecBatchCount := atoi count, errno := atoiErrno count config.errno }, 0)

def handleCfgMaxBucketsLine (config : ParsedCfg) (io : LineIo) (line : List UInt8) :
    ParsedCfg × Int :=
  match cfgGetArg io line with
  | none => (config, -EINVAL)
  | some count =>
    ({ config with ccfMaxBkt := atoi count, errno := atoiErrno count config.errno }, 0)

def handleCfgLogtypeLine (config : ParsedCfg) (io : LineIo) (line : List UInt8) :
    ParsedCfg × Int :=
  if config.ccfLoggername.isSome then (config, -EALREADY)
  else match cfgGetArg io line with
    | none => (config, -EINVAL)
    | some name => ({ config with ccfLoggername := some name }, 0)

def handleCfgWorkersLine (config : ParsedCfg) (io : LineIo) (line : List UInt8) :
    ParsedCfg × Int :=
  if config.ccfWorkerCount ≠ 0 then (config, -EALREADY)
  else match cfgGetArg io line with
    | none => (config, -EINVAL)
    | some count =>
      ({ config with ccfWorkerCount := atoi count, errno := atoiErrno count config.errno }, 0)

def handleCfgMdtdeviceLine (config : ParsedCfg) (io : LineIo) (line : List UInt8) :
    ParsedCfg × Int :=
  if config.ccfMdt.length ≥ maxMdt then (config, -EALREADY)
  else match cfgGetArg io line with
    | none => (config, -EINVAL)
    | some mdtdev => ({ config with ccfMdt := config.ccfMdt ++ [mdtdev] }, 0)

def handleCfgClreaderLine (config : ParsedCfg) (io : LineIo) (line : List UInt8) :
    ParsedCfg × Int :=
  if config.ccfClreader.isSome then (config, -EALREADY)
  else match cfgGetArg io line with
    | none => (config, -EINVAL)
    | some clreader => ({ config with ccfClreader := some clreader }, 0)

def directives : List (String × (ParsedCfg → LineIo → List UInt8 → ParsedCfg × Int)) :=
  [("batch_records", handleCfgBatchRecordsLine), ("max_buckets", handleCfgMaxBucketsLine),
    ("logtype", handleCfgLogtypeLine), ("workers", handleCfgWorkersLine),
    ("mdtdevice", handleCfgMdtdeviceLine), ("clreader", handleCfgClreaderLine)]

/-- Blanks are skipped for the empty lines and the comments only: the keyword is
looked for at the start of the line. -/
def parseConfigLine (config : ParsedCfg) (io : LineIo) (line : List UInt8) : ParsedCfg × Int :=
  match line.dropWhile isspace with
  | [] => (config, 0)
  | c :: _ =>
    if c = 35 then (config, 0)
    else match directives.find? fun d => startswith line (bytes d.1) with
      | none => (config, -EINVAL)
      | some d => d.2 config io line

/-- The loop over the lines, which ends at the first error. -/
def parseLines (io : Nat → LineIo) : Nat → ParsedCfg → List (List UInt8) → ParsedCfg × Int
  | _, config, [] => (config, 0)
  | k, config, line :: rest =>
    match parseConfigLine config (io k) (cString line) with
    | (config, rc) => if rc ≠ 0 then (config, rc) else parseLines io (k + 1) config rest

/-- `fopen` gives the content of a file that exists. What the handlers have left in `errno`
is the result. -/
def lcapParseConfigFile (fopen : List UInt8 → Option (List UInt8)) (io : Nat → LineIo)
    (config : ParsedCfg) : ParsedCfg × Int :=
  match fopen (config.ccfFile.getD (bytes "/etc/lcap.cfg")) with
  | none => (config, -ENOENT)
  | some content =>
    match parseLines io 0 config (fgetsLines 127 127 [] content) with
    | (config, rc) => if rc ≠ 0 then (config, rc) else (config, -(config.errno : Int))

/-- What `getopt` finds on the command line, with the copy made of a file name. -/
inductive CmdOpt
  | file (name : Option (List UInt8))
  | oneshot
  | verbose
  | help
  | invalid
  deriving DecidableEq, Repr

/-- The program exits when it is asked for help. -/
def lcapParseArgs (config : ParsedCfg) : List CmdOpt → Option (ParsedCfg × Int)
  | [] => some (config, 0)
  | .file name :: rest => lcapParseArgs { config with ccfFile := name } rest
  | .oneshot :: rest => lcapParseArgs { config with ccfOneshot := true } rest
  | .verbose :: rest => lcapParseArgs { config with ccfVerbosity := config.ccfVerbosity + 1 } rest
  | .help :: _ => none
  | .invalid :: _ => some (config, -EINVAL)

def configSetDefaults (config : ParsedCfg) : ParsedCfg :=
  { config with ccfRecBatchCount := defaultRecBatch, ccfMaxBkt := defaultMaxBuckets }

/-- `errno` is its value before. -/
def lcapCfgInit (args : List CmdOpt) (fopen : List UInt8 → Option (List UInt8))
    (io : Nat → LineIo) (errno : Nat) : Option (ParsedCfg × Int) :=
  match lcapParseArgs (configSetDefaults { errno }) args with
  | none => none
  | some (config, rc) =>
    if rc ≠ 0 then some (config, rc) else some (lcapParseConfigFile fopen io config)

def text (s : List UInt8) : String := String.ofList (s.map fun b => Char.ofNat b.toNat)

/-- The part of the configuration that a reader uses. -/
def ParsedCfg.lcapCfg (config : ParsedCfg) : LcapCfg where
  ccfMdt := config.ccfMdt.map text
  ccfClreader := text (config.ccfClreader.getD [])
  ccfMaxBkt := config.ccfMaxBkt
  ccfRecBatchCount := config.ccfRecBatchCount

end Lcap.Config
