import Rebuild.Config.Basic
import Rebuild.Path.Extension

/-!
# Outputs

A source file compiles to a file of the same name with another extension, beside it or at the same
place below the build directory.  A declaration file has no output.
-/

namespace Rebuild.Config

def outputExtension : Text := ".lua"

/-- The source directory, relative to the working directory when it lies inside. -/
def projectDir (config : Config) (here : Location) : Text :=
  here.projectRelative config.sourceDir

def outputOf (config : Config) (here : Location) (source : Text) : Option Text :=
  if Path.isDeclaration source then none
  else
    let beside := Path.withExtension source outputExtension
    match config.buildDir with
    | none => some beside
    | some buildDir =>
      let sourceDir := config.projectDir here
      if buildDir ≠ "" ∧ here.isInside source sourceDir = true then
        let below := Path.join (here.projectRelative buildDir) (here.relativeTo source sourceDir)
        some (Path.withExtension below outputExtension)
      else some beside

end Rebuild.Config
