import Detour.Core.Name

/-! DNS messages, as they are decoded. -/

namespace Detour.Core

open Detour.Rust

abbrev RecordType := UInt16

abbrev DnsClass := UInt16

def IN : DnsClass := 1

inductive ResponseCode
  | noError
  | formErr
  | servFail
  | nxDomain
  | other (code : UInt16)
  deriving DecidableEq

inductive MessageType
  | query
  | response
  deriving DecidableEq

inductive OpCode
  | query
  | status
  | notify
  | update
  deriving DecidableEq

structure Query where
  name : Name
  queryType : RecordType
  queryClass : DnsClass
  deriving DecidableEq

def Query.query (name : Name) (queryType : RecordType) : Query := ⟨name, queryType, IN⟩

structure Record where
  name : Name
  recordType : RecordType
  dnsClass : DnsClass
  ttl : UInt32
  data : Bytes
  deriving DecidableEq

structure Edns where
  maxPayload : UInt16
  version : UInt8
  dnssecOk : Bool
  options : Bytes
  deriving DecidableEq

structure Message where
  id : UInt16
  messageType : MessageType
  opCode : OpCode
  authoritative : Bool
  truncated : Bool
  recursionDesired : Bool
  recursionAvailable : Bool
  authenticData : Bool
  checkingDisabled : Bool
  responseCode : ResponseCode
  queries : List Query
  answers : List Record
  nameServers : List Record
  additionals : List Record
  edns : Option Edns
  deriving DecidableEq

def Message.new : Message where
  id := 0
  messageType := .query
  opCode := .query
  authoritative := false
  truncated := false
  recursionDesired := false
  recursionAvailable := false
  authenticData := false
  checkingDisabled := false
  responseCode := .noError
  queries := []
  answers := []
  nameServers := []
  additionals := []
  edns := none

end Detour.Core
