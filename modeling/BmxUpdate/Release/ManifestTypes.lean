import BmxUpdate.Manifest
import BmxUpdate.UpdateTypes

/-!
# The parsed manifest

What `ParseReleaseManifest` fills in (`release_manifest.h`).  A text is the bytes
before its NUL, an array with its count is a list.
-/

namespace BmxUpdate

namespace Release

open Wire

inductive ManifestCompression where
  | store | deflate
deriving DecidableEq, Repr

/-- A file of the inventory, with how the archive stores it. -/
structure ManifestFile where
  path : Bytes
  size : Nat
  sha256 : Digest
  policy : ManifestFilePolicy
  compression : ManifestCompression
deriving DecidableEq

/-- The versions of an area the release can start from, and the one it ends with. -/
structure ManifestConfigSchema where
  area : ConfigArea
  targetVersion : UInt32
  acceptedVersions : List UInt32
deriving DecidableEq, Repr

/-- A migration the release declares. -/
structure ManifestMigration where
  id : Bytes
  area : ConfigArea
  fromVersion : UInt32
  toVersion : UInt32
  lossy : Bool
deriving DecidableEq, Repr

/-- A change that loses settings of the user. -/
structure ManifestLossyChange where
  area : ConfigArea
  description : Bytes
deriving DecidableEq, Repr

/-- A board's archive and its inventory. -/
structure ManifestAsset where
  board : BoardFamily
  filename : Bytes
  downloadSize : Nat
  sha256 : Digest
  installedSize : Nat
  requiredPeakBytes : Nat
  files : List ManifestFile
  directories : List Bytes
deriving DecidableEq

/-- A parsed manifest; its asset is the one of the board it was parsed for. -/
structure ReleaseManifest where
  version : Bytes
  tag : Bytes
  sourceCommit : Bytes
  releaseSequence : UInt64
  releaseEpoch : UInt64
  minimumUpdaterAbi : UInt32
  maximumUpdaterAbi : UInt32
  signingKeyIds : List Bytes
  schemas : List ManifestConfigSchema
  migrations : List ManifestMigration
  lossyChanges : List ManifestLossyChange
  asset : ManifestAsset
deriving DecidableEq

end Release

end BmxUpdate
