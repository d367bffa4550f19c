import SourceStepper.Breakpoint.PathNormalizer
import SourceStepper.Evm.Address
import SourceStepper.Path

namespace SourceStepper

structure Config where
  /-- Where source paths and the build directory are looked for. -/
  projectRoot : String := "."
  /-- Where the artifacts are. -/
  buildDir : String := "build/resources/main/solidity"
  /-- The directory that source paths are relative to. -/
  sourceRoot : String := PathNormalizer.defaultSourceRoot
  /-- What the names of source files end with. -/
  sourceSuffix : String := PathNormalizer.defaultSuffix
  maxFrames : Nat := 1024
  caller : Evm.Address := 0x1000000000000000000000000000000000000001
  gasLimit : Nat := 16000000
  deriving DecidableEq, Repr

namespace Config

def buildPath (c : Config) : String := Path.join c.projectRoot c.buildDir

def normalizer (c : Config) : PathNormalizer := .ofLayout c.sourceRoot c.sourceSuffix

end Config

end SourceStepper
