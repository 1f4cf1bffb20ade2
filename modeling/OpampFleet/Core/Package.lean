import OpampFleet.Core.Text

/-!
# What a package signature covers

The model of `fleet-core`'s `package.rs`.
-/

namespace OpampFleet.Core

open Lib

def statement (agentType version : String) (contentHash : Bytes) : Bytes :=
  let hex := hexText contentHash
  s!"opamp-fleet-package-v1\n{agentType}\n{version}\n{hex}\n".toUTF8.toList

def floorStatement (agentType version : String) : Bytes :=
  s!"opamp-fleet-floor-v1\n{agentType}\n{version}\n".toUTF8.toList

end OpampFleet.Core
