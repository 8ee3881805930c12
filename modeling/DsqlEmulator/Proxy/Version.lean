import DsqlEmulator.Proxy.Session
import DsqlEmulator.Strings

/-! The statements that report the server version, and what the session runs in their place. -/

namespace DsqlEmulator.Proxy

open Strings

def trimSemicolon (s : List Char) : List Char := if s.getLast? = some ';' then s.dropLast else s

def versionKey (sql : String) : List Char :=
  List.intercalate [' '] (fields ((trimSemicolon (trimSpace sql.toList)).map toLower))

def defaultVersionFunction : String := "PostgreSQL 16"

def versionPart (s : List Char) : Int :=
  if s.all Char.isDigit then s.foldl
    (fun n c => Int.bmod (n * 10 + (c.toNat - '0'.toNat : Nat)) 18446744073709551616) 0 else 0

def serverVersionNum (version : String) : String :=
  let num (major minor patch : List Char) : String :=
    toString (Int.bmod (versionPart major * 10000 + versionPart minor * 100 + versionPart patch)
      18446744073709551616)
  match (trimSpace version.toList).splitOn '.' with
  | [major] => num major [] []
  | [major, patch] => num major [] patch
  | major :: minor :: patch => num major minor (List.intercalate ['.'] patch)
  | [] => num [] [] []

def selectConstant (value column : String) : String := "SELECT '" ++ value ++ "' AS " ++ column

def versionStatements (version : String) : List (List Char × Rewrite) :=
  [("select version()".toList, ⟨selectConstant defaultVersionFunction "version", false⟩),
    ("show server_version".toList, ⟨selectConstant version "server_version", true⟩),
    ("select current_setting('server_version')".toList,
      ⟨selectConstant version "current_setting", false⟩),
    ("select current_setting('server_version_num')".toList,
      ⟨selectConstant (serverVersionNum version) "current_setting", false⟩),
    ("show server_version_num".toList,
      ⟨selectConstant (serverVersionNum version) "server_version_num", true⟩)]

def rewriteSQL (version sql : String) : Option Rewrite :=
  (versionStatements version).lookup (versionKey sql)

example : (rewriteSQL "16.15" " Show  Server_Version;").map Rewrite.showTag = some true := by
  decide +kernel

example : (rewriteSQL "16.15" "SHOW ALL").isNone = true := by decide +kernel

end DsqlEmulator.Proxy
