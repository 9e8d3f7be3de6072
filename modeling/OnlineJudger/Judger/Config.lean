import OnlineJudger.LZData.LZData

/-!
# `OnlineJudger.Judger.Config`: the configured codes

The model of `Judger/Config.h` and of the constructor in `Judger/Config.cpp`: the verdict
codes, the language codes and the settings. `loadConfig` overwrites them from a file, so the
code that reads them may not rely on the defaults.
-/

set_option autoImplicit false

namespace OnlineJudger

/-- `Config`. The defaults are those of its constructor. -/
structure Config where
  JE_PENDING : Int := 0
  JE_REJUDGE : Int := 1
  JE_COMPILING : Int := 2
  JE_RUNNING_JUDGINE : Int := 3
  JE_ACCEPT : Int := 4
  JE_COMPLIE : Int := 5
  JE_WRONG_ANWSER : Int := 6
  JE_TIME_LIMITED : Int := 7
  JE_MEMORY_LIMITED : Int := 8
  JE_PRESENT : Int := 9
  JE_SYSTEM : Int := 10
  JE_RUNTIME : Int := 11
  JE_UNKNOWN : Int := 99
  CL_GPLUS : Int := 0
  CL_GCC : Int := 1
  CL_JAVA : Int := 2
  deriving DecidableEq, Repr

namespace Config

/-- The codes a judge run can end with. They are distinct from the open ones only if the settings
say so. -/
def verdicts (config : Config) : List Int :=
  [config.JE_ACCEPT, config.JE_WRONG_ANWSER, config.JE_PRESENT, config.JE_TIME_LIMITED,
    config.JE_MEMORY_LIMITED, config.JE_RUNTIME, config.JE_COMPLIE, config.JE_SYSTEM]

/-- The codes of a submission that has no verdict yet: pending, to be judged again, or with the
judge. -/
def openCodes (config : Config) : List Int :=
  [config.JE_PENDING, config.JE_REJUDGE, config.JE_COMPILING]

/-- `sqlSelectProblem` selects the submissions with these results. A submission that is compiling is
not among them as long as its code is another one. -/
def selectable (config : Config) (result : Int) : Bool :=
  result == config.JE_PENDING || result == config.JE_REJUDGE

end Config

/-- The constructor's codes are pairwise different. -/
example : (({} : Config).openCodes ++ ({} : Config).verdicts).Nodup := by decide

end OnlineJudger
