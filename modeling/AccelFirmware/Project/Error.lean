import AccelFirmware.Project.Manifest
import AccelFirmware.Synthesis

/-!
# Errors of commands

Why a command fails. Its message is a chain: what was being done, then what went wrong. An error that shows the error
underneath it and also carries it has both in the chain.
-/

namespace AccelFirmware

inductive CommandError where
  | directoryExists (name : String)
  | fileExists (path : String)
  | noManifest
  | unopenedManifest (path : String) (error : FileError)
  | unreadableManifest (path : String)
  | makingDirectory (name : String) (error : FileError)
  | writingFile (path : String) (error : FileError)
  | listingDevices (error : FileError)
  | scanningDevices (project : String) (error : FileError)
  | unknownDevice (name : String)
  | deviceFile (path : String) (error : DeviceError)
  | unknownFormat (name : String)
  | invalidDevice (name : String) (errors : Nat)
  | configuration (error : ConfigError)
  | unopenedInputs (path : String) (error : FileError)
  | unreadableInputs (path : String)
  | synthesis (device : String) (error : SynthesisError)
  | writingSources (directory : String) (error : FileError)
  deriving DecidableEq, Repr

namespace CommandError

/-- A failed file operation under the heading that wraps it. -/
def fileChain (e : FileError) : List String := (DeviceError.unopened e).chain

def chain : CommandError → List String
  | .directoryExists name => ["directory '" ++ name ++ "' already exists"]
  | .fileExists path => [path ++ " already exists"]
  | .noManifest => ["no cnnsynth.toml found (run \x60cnnsynth init\x60 first)"]
  | .unopenedManifest path e => ["reading " ++ path, e.message]
  | .unreadableManifest path => ["parsing " ++ path, "TOML parse error"]
  | .makingDirectory name e => ["creating " ++ name ++ "/ directory", e.message]
  | .writingFile path e => ["writing " ++ path, e.message]
  | .listingDevices e => fileChain e
  | .scanningDevices project e => ("scanning " ++ project ++ "/devices") :: fileChain e
  | .unknownDevice name =>
      ["unknown device: '" ++ name ++ "'. Use 'cnnsynth device list' to see available devices."]
  | .deviceFile path e => ("loading " ++ path) :: e.chain
  | .unknownFormat name => ["unknown format '" ++ name ++ "' (expected text, toml or json)"]
  | .invalidDevice name errors => ["device '" ++ name ++ "' has " ++ decimal errors ++ " error(s)"]
  | .configuration e => ["invalid [synthesis] configuration", e.message]
  | .unopenedInputs path e => ("loading inputs from " ++ path) :: fileChain e
  | .unreadableInputs path => ["loading inputs from " ++ path, "serialization error"]
  | .synthesis device e => ("synthesis for device '" ++ device ++ "' failed") :: e.chain
  | .writingSources directory e => ("writing sources to " ++ directory) :: fileChain e

def message (e : CommandError) : String := ": ".intercalate e.chain

end CommandError

end AccelFirmware
