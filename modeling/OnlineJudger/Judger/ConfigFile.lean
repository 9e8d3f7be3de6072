import OnlineJudger.LZData.Load
import OnlineJudger.Judger.Config
import OnlineJudger.Acm.ZNet

/-!
# `OnlineJudger.Judger.ConfigFile`: the configuration file

The model of `loadConfig` of `Judger/Config.cpp`, with the typed reads of `LZData/LZData.cpp` that
it uses. `Settings` is a `Config` together with the members that the constructor leaves unset.
-/

set_option autoImplicit false

namespace OnlineJudger

namespace LZData

/-- `asInt`. -/
def asInt (d : LZData) : Int := atoi (cString d.value)

/-- `asString`. -/
def asString (d : LZData) : Text := d.value

/-- `readInt`: the number at a path, or the default if there is no such node. A text that is no
number reads as zero. -/
def readInt (d : LZData) (tag : Text) (default : Int) : Int :=
  match d.readNode tag with
  | none => default
  | some ptr => ptr.asInt

/-- `readString`: the text at a path, or the default if there is no such node. -/
def readString (d : LZData) (tag : Text) (default : Text) : Text :=
  match d.readNode tag with
  | none => default
  | some ptr => ptr.asString

end LZData

/-- `Config` with the members that only `loadConfig` sets. The others have the defaults of the
constructor until then. -/
structure Settings extends Config where
  cores : Int
  testDataPath : Text
  dbusername : Text
  dbpassword : Text
  dbip : Text
  dbport : Int
  dbname : Text
  deriving DecidableEq, Repr

namespace Settings

/-- The members before the first section. -/
def readGeneral (config : Settings) (root : LZData) : Settings :=
  { config with
    cores := root.readInt "cores".toList 0
    testDataPath := root.readString "testDataPath".toList [] }

/-- The section of the verdict codes. A code that is missing there becomes 0, and not the default of
the constructor. -/
def readJudgecode (config : Settings) (ptr : LZData) : Settings :=
  { config with
    JE_PENDING := ptr.readInt "pending".toList 0
    JE_REJUDGE := ptr.readInt "rejudge".toList 0
    JE_COMPILING := ptr.readInt "compiling".toList 0
    JE_RUNNING_JUDGINE := ptr.readInt "running".toList 0
    JE_ACCEPT := ptr.readInt "accept".toList 0
    JE_COMPLIE := ptr.readInt "compile_error".toList 0
    JE_WRONG_ANWSER := ptr.readInt "wrong_anwser".toList 0
    JE_TIME_LIMITED := ptr.readInt "time_limited".toList 0
    JE_MEMORY_LIMITED := ptr.readInt "memory_limited".toList 0
    JE_PRESENT := ptr.readInt "present_error".toList 0
    JE_SYSTEM := ptr.readInt "system_error".toList 0
    JE_RUNTIME := ptr.readInt "runtime_error".toList 0
    JE_UNKNOWN := ptr.readInt "unknow_error".toList 0 }

/-- The section of the language codes, with their own defaults. -/
def readCompiler (config : Settings) (ptr : LZData) : Settings :=
  { config with
    CL_GCC := ptr.readInt "gcc".toList 0
    CL_GPLUS := ptr.readInt "g++".toList 1
    CL_JAVA := ptr.readInt "java".toList 3 }

/-- The section of the database. The password is stored as it stands in the file. -/
def readMysql (config : Settings) (ptr : LZData) : Settings :=
  { config with
    dbip := ptr.readString "ip".toList []
    dbport := ptr.readInt "port".toList 0
    dbusername := ptr.readString "user".toList []
    dbpassword := ptr.readString "password".toList []
    dbname := ptr.readString "dbname".toList [] }

/-- `loadConfig` of a tree: the result and the changed object. A missing section ends the call, and
the members that were read before it stay changed. A missing member has its default. -/
def loadRoot (config : Settings) (root : LZData) : Bool × Settings :=
  let config := config.readGeneral root
  match root.readNode "judgecode".toList with
  | none => (false, config)
  | some ptr =>
    let config := config.readJudgecode ptr
    match root.readNode "compiler".toList with
    | none => (false, config)
    | some ptr =>
      let config := config.readCompiler ptr
      match root.readNode "mysql".toList with
      | none => (false, config)
      | some ptr => (true, config.readMysql ptr)

/-- `loadConfig` of a file. `createLzdFromFile` with `LZD_XML` is `xml::createFromFile`, which may
fail to read the file, but does not fail on a text that the parser rejects. `none` and an error are
loads that do not end in order. -/
def loadConfig (files : Text → Option Text) (config : Settings) (fname : Text) :
    Option (Except LoadFault (Bool × Settings)) :=
  match Xml.createFromFile files fname with
  | none => none
  | some (.error f) => some (.error f)
  | some (.ok none) => some (.ok (false, config))
  | some (.ok (some root)) => some (.ok (config.loadRoot root))

end Settings

end OnlineJudger
