import Nssf.Generated.Records

/-! The generated records that are made of strings, numbers, truth values and one another. -/

namespace Nssf.Generated

open Base Schema

def plmnId : Schema := field "mcc" true .string <| field "mnc" true .string <| nil

def sdRange : Schema := field "start" false .string <| field "end" false .string <| nil

def snssai : Schema := field "sst" true .number <| field "sd" false .string <| nil

def extSnssai : Schema :=
  field "sst" true .number <|
  field "sd" false .string <|
  field "sdRanges" false (.models sdRange) <|
  field "wildcardSd" false .bool <| nil

def tacRange : Schema :=
  field "start" false .string <|
  field "end" false .string <|
  field "pattern" false .string <| nil

def tai : Schema :=
  field "plmnId" true (.model plmnId) <|
  field "tac" true .string <|
  field "nid" false .string <| nil

def taiRange : Schema :=
  field "plmnId" true (.model plmnId) <|
  field "tacRangeList" true (.models tacRange) <|
  field "nid" false .string <| nil

def nsagInfo : Schema :=
  field "nsagIds" true .numbers <|
  field "snssaiList" true (.models snssai) <|
  field "taiList" false (.models tai) <|
  field "taiRangeList" false (.models taiRange) <| nil

def restrictedSnssai : Schema :=
  field "homePlmnId" true (.model plmnId) <|
  field "sNssaiList" true (.models extSnssai) <|
  field "homePlmnIdList" false (.models plmnId) <|
  field "roamingRestriction" false .bool <| nil

def supportedNssaiAvailabilityData : Schema :=
  field "tai" true (.model tai) <|
  field "supportedSnssaiList" true (.models extSnssai) <|
  field "taiList" false (.models tai) <|
  field "taiRangeList" false (.models taiRange) <|
  field "nsagInfos" false (.models nsagInfo) <| nil

def authorizedNssaiAvailabilityData : Schema :=
  field "tai" true (.model tai) <|
  field "supportedSnssaiList" true (.models extSnssai) <|
  field "restrictedSnssaiList" false (.models restrictedSnssai) <|
  field "taiList" false (.models tai) <|
  field "taiRangeList" false (.models taiRange) <|
  field "nsagInfos" false (.models nsagInfo) <| nil

def nssaiAvailabilityInfo : Schema :=
  field "supportedNssaiAvailabilityData" true (.models supportedNssaiAvailabilityData) <|
  field "supportedFeatures" false .string <|
  field "amfSetId" false .string <| nil

def authorizedNssaiAvailabilityInfo : Schema :=
  field "authorizedNssaiAvailabilityData" true (.models authorizedNssaiAvailabilityData) <|
  field "supportedFeatures" false .string <| nil

def nssfEventType : Schema := nil

def nssfEventSubscriptionCreatedData : Schema :=
  field "subscriptionId" true .string <|
  field "expiry" false .string <|
  field "authorizedNssaiAvailabilityData" false (.models authorizedNssaiAvailabilityData) <|
  field "supportedFeatures" false .string <|
  field "acceptedEvents" false (.models nssfEventType) <| nil

def configuredSnssai : Schema :=
  field "configuredSnssai" true (.model snssai) <|
  field "mappedHomeSnssai" false (.model snssai) <| nil

def mappingOfSnssai : Schema :=
  field "servingSnssai" true (.model snssai) <|
  field "homeSnssai" true (.model snssai) <| nil

def subscribedSnssai : Schema :=
  field "subscribedSnssai" true (.model snssai) <|
  field "defaultIndication" false .bool <|
  field "subscribedNsSrgList" false .strings <| nil

def snssaiExtension : Schema :=
  field "sdRanges" false (.models sdRange) <|
  field "wildcardSd" false .bool <| nil

def snssaiInfo : Schema := field "nsiIds" false .strings <| nil

def roamingIndication : Schema := nil

def sliceInfoForPduSession : Schema :=
  field "sNssai" true (.model snssai) <|
  field "roamingIndication" true (.model roamingIndication) <|
  field "homeSnssai" false (.model snssai) <| nil

def mitigationInfo : Schema :=
  field "percValueNumUes" false .number <|
  field "newUesInd" false .bool <| nil

def invalidParam : Schema := field "param" true .string <| field "reason" false .string <| nil

def queryParameter : Schema := field "name" true .string <| field "value" true .string <| nil

def queryParamCombination : Schema := field "queryParams" true (.models queryParameter) <| nil

def redirectResponse : Schema :=
  field "cause" false .string <|
  field "targetScp" false .string <|
  field "targetSepp" false .string <| nil

def records : List Schema :=
  [plmnId, sdRange, snssai, extSnssai, tacRange, tai, taiRange, nsagInfo, restrictedSnssai,
    supportedNssaiAvailabilityData, authorizedNssaiAvailabilityData, nssaiAvailabilityInfo,
    authorizedNssaiAvailabilityInfo, nssfEventType, nssfEventSubscriptionCreatedData,
    configuredSnssai, mappingOfSnssai, subscribedSnssai, snssaiExtension, snssaiInfo,
    roamingIndication, sliceInfoForPduSession, mitigationInfo, invalidParam, queryParameter,
    queryParamCombination, redirectResponse]

end Nssf.Generated
